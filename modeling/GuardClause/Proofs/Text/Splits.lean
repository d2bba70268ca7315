import GuardClause.Buffer
import GuardClause.Proofs.Text.Newlines

/-!
# Lines apart again

`Text.joinWith` joins lines by a line ending of one or two characters, and `Text.split` looks for
that ending from the front and cuts the text wherever it stands. A line may hold stray carriage
returns, at its end too, but no newline. So the ending is found where it was put and nowhere else,
and splitting undoes joining (`split_joinWith`).
-/

namespace GuardClause.Text

/-- The pieces of a text between the places where a separator stands. The first `skip` characters
are those of a separator that has been found already. -/
def splitFrom (sep : Text) : Nat → Text → List Text
  | _, [] => [[]]
  | skip + 1, _ :: rest => splitFrom sep skip rest
  | 0, c :: rest =>
      if sep.isPrefixOf (c :: rest) then [] :: splitFrom sep (sep.length - 1) rest
      else (splitFrom sep 0 rest).modifyHead (c :: ·)

/-- The pieces of a text between the places where a separator stands, which is not empty. -/
def split (sep t : Text) : List Text := splitFrom sep 0 t

/-- A line ending has one newline, as its last character. -/
def IsEnding (ending : Text) : Prop := ∃ u, ending = u ++ ['\n'] ∧ '\n' ∉ u

theorem isEnding_newline (b : Buffer) : IsEnding b.newline := by
  unfold Buffer.newline
  split
  · exact ⟨['\r'], rfl, by decide⟩
  · exact ⟨[], rfl, List.not_mem_nil⟩

variable {ending l t : Text}

theorem splitFrom_append (sep t u : Text) :
    splitFrom sep t.length (t ++ u) = splitFrom sep 0 u := by
  induction t with
  | nil => rfl
  | cons c t ih => exact ih

/-- An ending does not begin before the end of the line. -/
theorem IsEnding.isPrefixOf_eq_false (h : IsEnding ending) {c : Char} (hl : '\n' ∉ c :: l)
    (t : Text) : ending.isPrefixOf (c :: l ++ (ending ++ t)) = false := by
  refine Bool.eq_false_of_not_eq_true ?_
  intro hstands
  obtain ⟨v, hv⟩ := List.isPrefixOf_iff_prefix.mp hstands
  obtain ⟨u, rfl, hu⟩ := h
  -- The first newline would stand in two places.
  have hlong : '\n' ∉ c :: l ++ u := by
    rw [List.mem_append]
    exact fun hmem => hmem.elim hl hu
  have hfirst := congrArg firstLine hv
  rw [List.append_assoc, List.singleton_append, firstLine_append hu, List.append_assoc,
    List.singleton_append, ← List.append_assoc, firstLine_append hlong] at hfirst
  have hlength := congrArg List.length hfirst
  rw [List.length_append, List.length_cons] at hlength
  omega

theorem IsEnding.isPrefixOf_eq_false_of_not_mem (h : IsEnding ending) (hl : '\n' ∉ l) :
    ending.isPrefixOf l = false := by
  refine Bool.eq_false_of_not_eq_true ?_
  intro hstands
  obtain ⟨u, rfl, -⟩ := h
  exact hl ((List.isPrefixOf_iff_prefix.mp hstands).subset (by simp))

theorem split_of_not_mem (h : IsEnding ending) (hl : '\n' ∉ l) : split ending l = [l] := by
  induction l with
  | nil => rfl
  | cons c l ih =>
      rw [split, splitFrom, h.isPrefixOf_eq_false_of_not_mem hl]
      have hrest := ih fun hmem => hl (List.mem_cons_of_mem c hmem)
      rw [split] at hrest
      rw [hrest]
      rfl

/-- A line is split from what follows its ending. -/
theorem split_append (h : IsEnding ending) (hl : '\n' ∉ l) (t : Text) :
    split ending (l ++ (ending ++ t)) = l :: split ending t := by
  induction l with
  | nil =>
      obtain ⟨c, rest, rfl⟩ : ∃ c rest, ending = c :: rest := by
        obtain ⟨u, rfl, -⟩ := h
        exact List.exists_cons_of_ne_nil (by simp)
      have hstands : (c :: rest).isPrefixOf (c :: rest ++ t) = true :=
        List.isPrefixOf_iff_prefix.mpr (List.prefix_append _ _)
      rw [List.nil_append, split, List.cons_append, splitFrom]
      rw [List.cons_append] at hstands
      rw [hstands, if_pos rfl]
      exact congrArg ([] :: ·) (splitFrom_append _ rest t)
  | cons c l ih =>
      have hrest := ih fun hmem => hl (List.mem_cons_of_mem c hmem)
      have hnot := h.isPrefixOf_eq_false hl t
      rw [List.cons_append] at hnot ⊢
      rw [split] at hrest
      rw [split, splitFrom, hnot, hrest]
      rfl

/-- Joining lines by a line ending and splitting them apart again loses nothing. -/
theorem split_joinWith (h : IsEnding ending) {ls : List Text} (hne : ls ≠ [])
    (hls : ∀ l ∈ ls, '\n' ∉ l) : split ending (joinWith ending ls) = ls := by
  induction ls with
  | nil => exact absurd rfl hne
  | cons l ls ih =>
      have hl := hls l List.mem_cons_self
      cases ls with
      | nil => rw [joinWith, List.intercalate_singleton, split_of_not_mem h hl]
      | cons k ls =>
          have hrest := ih (List.cons_ne_nil k ls) fun m hm => hls m (List.mem_cons_of_mem l hm)
          rw [joinWith, List.intercalate_cons_cons, List.append_assoc, split_append h hl]
          exact congrArg (l :: ·) hrest

end GuardClause.Text
