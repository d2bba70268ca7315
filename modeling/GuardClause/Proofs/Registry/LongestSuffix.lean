import GuardClause.Proofs.Registry.Histories
import GuardClause.Proofs.Text.Casing

/-!
# The longest suffix decides

The language of a file is told by the longest tail of its name that starts at a point and is an
extension that someone owns (`Registry.LongestOwned`). The lookup itself only goes through the tails
one by one. It meets them in the order of their lengths, so the first one that is owned is the
longest one, and what is owned under a shorter extension makes no difference (`follows_suffix`). The
tails are also what comes out when a name is cut at its points and the pieces are joined again from
each one on (`suffixes_eq_joins`).
-/

namespace GuardClause

namespace FileName

/-- A tail of a name that starts at a point. -/
def IsTail (n t : Text) : Prop := t <:+ n ∧ t.head? = some '.'

/-- The extension that a tail is looked up as. -/
def key (t : Text) : String := Text.lowerCase (String.ofList t)

/-- The name of the file at a path without the points in front of it. -/
def stem (path : String) : Text := (ofPath path.toList).dropWhile (· = '.')

/-! ## Tails -/

theorem mem_dottedTails_iff {n t : Text} : t ∈ dottedTails n ↔ IsTail n t := by
  unfold IsTail
  induction n with
  | nil =>
      refine iff_of_false List.not_mem_nil ?_
      rintro ⟨hsuffix, hhead⟩
      obtain rfl := List.suffix_nil.mp hsuffix
      cases hhead
  | cons c n ih =>
      rw [List.suffix_cons_iff, or_and_right, ← ih, dottedTails]
      by_cases hc : c = '.'
      · rw [if_pos hc, List.mem_cons]
        refine or_congr_left ⟨?_, And.left⟩
        rintro rfl
        exact ⟨rfl, congrArg some hc⟩
      · rw [if_neg hc]
        refine (or_iff_right ?_).symm
        rintro ⟨rfl, hhead⟩
        exact hc (Option.some.inj hhead)

/-- The tails come in the order of their lengths, the longest first. -/
theorem dottedTails_pairwise (n : Text) :
    (dottedTails n).Pairwise fun t u => u.length < t.length := by
  induction n with
  | nil => exact List.Pairwise.nil
  | cons c n ih =>
      rw [dottedTails]
      split
      · refine List.Pairwise.cons ?_ ih
        intro u hu
        have hle := (mem_dottedTails_iff.mp hu).1.length_le
        rw [List.length_cons]
        omega
      · exact ih

theorem dottedTails_of_not_mem {n : Text} (h : '.' ∉ n) : dottedTails n = [] := by
  apply List.eq_nil_iff_forall_not_mem.mpr
  intro t ht
  obtain ⟨hsuffix, hhead⟩ := mem_dottedTails_iff.mp ht
  exact h (hsuffix.subset (List.mem_of_head? hhead))

/-- The tail of a name is looked up as a longer extension than a shorter tail is. -/
theorem length_key_lt {n t u : Text} (ht : IsTail n t) (hu : IsTail n u)
    (hlt : u.length < t.length) : (key u).length < (key t).length :=
  Text.length_lowerCase_lt (List.suffix_of_suffix_length_le hu.1 ht.1 hlt.le) hlt

/-- A tail is not looked up as a longer extension than a tail that is as long or longer. -/
theorem length_key_le {n t u : Text} (ht : IsTail n t) (hu : IsTail n u)
    (hle : t.length ≤ u.length) : (key t).length ≤ (key u).length := by
  rcases hle.lt_or_eq with hlt | heq
  · exact (length_key_lt hu ht hlt).le
  · rw [(List.suffix_of_suffix_length_le ht.1 hu.1 hle).eq_of_length heq]

/-! ## Cutting at points and joining again -/

/-- The suffixes of a file name one by one, each from a point up to the next one. -/
def pieces (name : Text) : List Text :=
  if name.getLast? = some '.' then []
  else ((name.dropWhile (· = '.')).splitOn '.').tail.map ('.' :: ·)

/-- All pieces joined, then all but the first, and so on down to the last one alone. -/
def joins (pieces : List Text) : List Text :=
  (List.range pieces.length).map fun i => (pieces.drop i).flatten

theorem joins_cons (s : Text) (pieces : List Text) :
    joins (s :: pieces) = (s ++ pieces.flatten) :: joins pieces := by
  rw [joins, List.length_cons, List.range_succ_eq_map, List.map_cons, List.map_map]
  rfl

/-- A text is its first piece and what the pieces after it join to; these make up the tails. -/
theorem splitOn_point (n : Text) :
    ∃ s pieces, n.splitOn '.' = s :: pieces ∧ n = s ++ (pieces.map ('.' :: ·)).flatten ∧
      dottedTails n = joins (pieces.map ('.' :: ·)) := by
  induction n with
  | nil => exact ⟨[], [], rfl, rfl, rfl⟩
  | cons c n ih =>
      obtain ⟨s, pieces, hsplit, hjoin, htails⟩ := ih
      rw [List.splitOn] at hsplit
      rw [List.splitOn, List.splitOnP_cons_eq_if_modifyHead, hsplit, dottedTails, htails]
      by_cases hc : c = '.'
      · refine ⟨[], s :: pieces, by simp [hc], ?_, ?_⟩
        · rw [hjoin, hc]
          rfl
        · rw [if_pos hc, List.map_cons, joins_cons, hjoin, hc]
          rfl
      · refine ⟨c :: s, pieces, by simp [hc], ?_, by rw [if_neg hc]⟩
        rw [hjoin]
        rfl

theorem suffixes_eq_joins (name : Text) : suffixes name = joins (pieces name) := by
  unfold suffixes pieces
  split
  · rfl
  · obtain ⟨s, pieces, hsplit, -, htails⟩ := splitOn_point (name.dropWhile (· = '.'))
    rw [hsplit, htails]
    rfl

/-! ## Folders -/

theorem components_append (folder file : Text) :
    components (folder ++ '/' :: file) = components folder ++ components file := by
  unfold components
  rw [List.splitOnP_append_cons folder file (by simp), List.filter_append]

/-- The folder of a file has no part in its name. -/
theorem ofPath_append (folder : Text) {file : Text} (h : components file ≠ []) :
    ofPath (folder ++ '/' :: file) = ofPath file := by
  rw [ofPath, components_append, List.getLast?_append_of_ne_nil _ h]
  rfl

end FileName

open FileName

namespace Registry

variable {α : Type} {r : Registry α} {n t u : Text} {path : String}

/-! ## The longest tail that is owned -/

/-- The longest tail of a name that is looked up as an extension which someone owns. -/
structure LongestOwned (r : Registry α) (n t : Text) : Prop where
  isTail : IsTail n t
  owned : key t ∈ r.extensions
  longest : ∀ u, IsTail n u → key u ∈ r.extensions → u.length ≤ t.length

theorem LongestOwned.unique (ht : r.LongestOwned n t) (hu : r.LongestOwned n u) : t = u := by
  have hle := hu.longest t ht.isTail ht.owned
  exact (List.suffix_of_suffix_length_le ht.isTail.1 hu.isTail.1 hle).eq_of_length_le
    (ht.longest u hu.isTail hu.owned)

theorem owner?_eq_none_iff {x : String} : r.owner? x = none ↔ x ∉ r.extensions := by
  rw [extensions, Table.mem_keys_iff, ← Option.isSome_iff_exists, Option.not_isSome_iff_eq_none]
  rfl

/-! ## Files -/

/-- The keys of a name that does not end in a point are those of its tails. -/
theorem lookupKeys_eq (h : (ofPath path.toList).getLast? ≠ some '.') :
    lookupKeys path = (dottedTails (stem path)).map key := by
  rw [lookupKeys, suffixes, if_neg h]
  rfl

theorem lookupKeys_eq_nil
    (h : (ofPath path.toList).getLast? = some '.' ∨ '.' ∉ stem path) : lookupKeys path = [] := by
  by_cases hends : (ofPath path.toList).getLast? = some '.'
  · rw [lookupKeys, suffixes, if_pos hends]
    rfl
  · rw [lookupKeys_eq hends, dottedTails_of_not_mem (h.resolve_left hends)]
    rfl

/-- A tail decides when it is owned and no longer one is. -/
theorem ownerOf?_of_tail {name : String} (h : (ofPath path.toList).getLast? ≠ some '.')
    (ht : IsTail (stem path) t) (howner : r.owner? (key t) = some name) (hne : name ≠ "")
    (hlonger : ∀ u, IsTail (stem path) u → t.length < u.length → r.owner? (key u) = none) :
    r.ownerOf? (lookupKeys path) = some name := by
  obtain ⟨before, after, hsplit⟩ := List.append_of_mem (mem_dottedTails_iff.mpr ht)
  have hpairwise := dottedTails_pairwise (stem path)
  rw [ownerOf?, lookupKeys_eq h, hsplit, List.map_append, List.map_cons]
  refine List.findSome?_eq_some_iff.mpr ⟨before.map key, key t, after.map key, rfl, ?_, ?_⟩
  · rw [howner, Option.filter_some, if_pos (by simpa using hne)]
  · intro x hx
    obtain ⟨u, hu, rfl⟩ := List.mem_map.mp hx
    have htail : IsTail (stem path) u := mem_dottedTails_iff.mp (by simp [hsplit, hu])
    rw [hsplit] at hpairwise
    rw [hlonger u htail ((List.pairwise_append.mp hpairwise).2.2 u hu t List.mem_cons_self)]
    rfl

/-- A tail that decides is the longest one that is owned, where no owner has an empty name. -/
theorem exists_longestOwned {name : String} (hnamed : ∀ x, r.owner? x ≠ some "")
    (h : r.ownerOf? (lookupKeys path) = some name) : ∃ t, r.LongestOwned (stem path) t := by
  have hends : (ofPath path.toList).getLast? ≠ some '.' := by
    intro hends
    rw [lookupKeys_eq_nil (Or.inl hends)] at h
    cases h
  rw [ownerOf?, lookupKeys_eq hends, List.findSome?_map] at h
  obtain ⟨before, t, after, hsplit, howner, hbefore⟩ := List.findSome?_eq_some_iff.mp h
  have hpairwise := dottedTails_pairwise (stem path)
  rw [hsplit] at hpairwise
  have hafter := (List.pairwise_cons.mp (List.pairwise_append.mp hpairwise).2.1).1
  refine ⟨t, mem_dottedTails_iff.mp (by simp [hsplit]), ?_, ?_⟩
  · by_contra hnot
    rw [Function.comp_apply, owner?_eq_none_iff.mpr hnot] at howner
    cases howner
  · intro u hu howned
    have hmem : u ∈ before ++ t :: after := hsplit ▸ mem_dottedTails_iff.mpr hu
    rcases List.mem_append.mp hmem with hu | hu
    · -- An extension that is owned is passed over only when its owner has an empty name.
      obtain ⟨owner, hown⟩ := Table.mem_keys_iff.mp howned
      have hpassed := Option.filter_eq_none_iff.mp (hbefore u hu) owner hown
      exact absurd (hown.trans (congrArg some (by simpa using hpassed))) (hnamed (key u))
    · rcases List.mem_cons.mp hu with rfl | hu
      · exact Nat.le_refl _
      · exact (hafter u hu).le

theorem LongestOwned.exists_owner (ht : r.LongestOwned n t)
    (hnamed : ∀ x, r.owner? x ≠ some "") :
    ∃ name, r.owner? (key t) = some name ∧ name ≠ "" := by
  obtain ⟨name, howner⟩ := Table.mem_keys_iff.mp ht.owned
  refine ⟨name, howner, ?_⟩
  rintro rfl
  exact hnamed (key t) howner

theorem LongestOwned.owner?_of_longer (ht : r.LongestOwned n t) (hu : IsTail n u)
    (hlt : t.length < u.length) : r.owner? (key u) = none := by
  rw [owner?_eq_none_iff]
  intro howned
  exact absurd (ht.longest u hu howned) (Nat.not_le.mpr hlt)

theorem LongestOwned.exists_ofFile? (ht : r.LongestOwned (stem path) t)
    (hnamed : ∀ x, r.owner? x ≠ some "") (hends : (ofPath path.toList).getLast? ≠ some '.') :
    ∃ name, r.owner? (key t) = some name ∧ r.ofFile? path = r.entries.get? name := by
  obtain ⟨name, howner, hne⟩ := ht.exists_owner hnamed
  refine ⟨name, howner, ?_⟩
  rw [ofFile?, ownerOf?_of_tail hends ht.isTail howner hne fun u => ht.owner?_of_longer]
  rfl

theorem ofFile?_of_not_longestOwned (hnamed : ∀ x, r.owner? x ≠ some "")
    (h : ∀ t, ¬ r.LongestOwned (stem path) t) : r.ofFile? path = none := by
  rw [ofFile?]
  cases howner : r.ownerOf? (lookupKeys path) with
  | none => rfl
  | some name =>
      obtain ⟨t, ht⟩ := exists_longestOwned hnamed howner
      exact absurd ht (h t)

/-- Neither the deciding tail nor a longer one is looked up as an extension that is added and is
shorter. -/
theorem LongestOwned.ofFile?_put (ht : r.LongestOwned (stem path) t)
    (hnamed : ∀ x, r.owner? x ≠ some "") (hends : (ofPath path.toList).getLast? ≠ some '.')
    {x : String} (hlt : x.length < (key t).length) (owner : String) :
    Registry.ofFile? { r with owners := r.owners.put x owner } path = r.ofFile? path := by
  obtain ⟨name, howner, hne⟩ := ht.exists_owner hnamed
  have hput : ∀ u, IsTail (stem path) u → t.length ≤ u.length →
      Registry.owner? { r with owners := r.owners.put x owner } (key u) = r.owner? (key u) := by
    intro u hu hle
    refine (Table.get?_put r.owners x (key u) owner).trans (if_neg ?_)
    rintro rfl
    exact absurd (length_key_le ht.isTail hu hle) (Nat.not_le.mpr hlt)
  have hlonger : ∀ u, IsTail (stem path) u → t.length < u.length →
      Registry.owner? { r with owners := r.owners.put x owner } (key u) = none := by
    intro u hu hlonger
    rw [hput u hu hlonger.le, ht.owner?_of_longer hu hlonger]
  have howner' := (hput t ht.isTail (Nat.le_refl _)).trans howner
  rw [ofFile?, ofFile?, ownerOf?_of_tail hends ht.isTail howner hne fun u => ht.owner?_of_longer,
    ownerOf?_of_tail hends ht.isTail howner' hne hlonger]

theorem ofFile?_folder (r : Registry α) (folder : String) (h : components path.toList ≠ []) :
    r.ofFile? (folder ++ "/" ++ path) = r.ofFile? path := by
  have hname : ofPath (folder ++ "/" ++ path).toList = ofPath path.toList := by
    rw [String.toList_append, String.toList_append, List.append_assoc]
    exact ofPath_append folder.toList h
  rw [ofFile?, ofFile?, lookupKeys, lookupKeys, hname]

theorem ofFile?_of_lookupKeys_eq_nil (h : lookupKeys path = []) : r.ofFile? path = none := by
  rw [ofFile?, h]
  rfl

/-- The language of a file is told by the longest tail of its name that is owned, and by nothing
else. -/
structure FollowsSuffix (r : Registry α) (path : String) : Prop where
  endsInPoint : (ofPath path.toList).getLast? = some '.' → r.ofFile? path = none
  pointless : '.' ∉ stem path → r.ofFile? path = none
  owned : ∀ t, (ofPath path.toList).getLast? ≠ some '.' → r.LongestOwned (stem path) t →
    ∃ name, r.owner? (key t) = some name ∧ r.ofFile? path = r.entries.get? name
  unowned : (∀ t, ¬ r.LongestOwned (stem path) t) → r.ofFile? path = none
  unique : ∀ t u, r.LongestOwned (stem path) t → r.LongestOwned (stem path) u → t = u
  /-- Whoever else comes to own a shorter extension makes no difference. -/
  shorter : ∀ t x owner, (ofPath path.toList).getLast? ≠ some '.' →
    r.LongestOwned (stem path) t → x.length < (key t).length →
    Registry.ofFile? { r with owners := r.owners.put x owner } path = r.ofFile? path
  /-- A shorter tail is a shorter extension. -/
  shorterTail : ∀ t u, IsTail (stem path) t → IsTail (stem path) u → u.length < t.length →
    (key u).length < (key t).length
  /-- The folder of the file makes no difference. -/
  folder : ∀ folder : String, components path.toList ≠ [] →
    r.ofFile? (folder ++ "/" ++ path) = r.ofFile? path
  /-- Joining the suffixes from each one on comes to the same. -/
  joined : r.ofFile? path =
    (r.ownerOf? ((joins (pieces (ofPath path.toList))).map key)).bind r.entries.get?

/-- Where no owner has an empty name, every file is told by the longest tail of its name that is
owned. -/
theorem follows_suffix (hnamed : ∀ x, r.owner? x ≠ some "") (path : String) :
    r.FollowsSuffix path := by
  constructor
  case endsInPoint =>
      intro h
      exact ofFile?_of_lookupKeys_eq_nil (lookupKeys_eq_nil (Or.inl h))
  case pointless =>
      intro h
      exact ofFile?_of_lookupKeys_eq_nil (lookupKeys_eq_nil (Or.inr h))
  case owned =>
      intro t hends ht
      exact ht.exists_ofFile? hnamed hends
  case unowned => exact ofFile?_of_not_longestOwned hnamed
  case unique =>
      intro t u ht hu
      exact ht.unique hu
  case shorter =>
      intro t x owner hends ht hlt
      exact ht.ofFile?_put hnamed hends hlt owner
  case shorterTail =>
      intro t u ht hu hlt
      exact length_key_lt ht hu hlt
  case folder =>
      intro folder h
      exact ofFile?_folder r folder h
  case joined =>
      rw [ofFile?, lookupKeys, suffixes_eq_joins]
      rfl

/-- Two languages whose extensions are tails of one another. -/
def nestedSuffixes : Registry Unit :=
  run [.register ⟨"plain", [".ts"], ()⟩, .register ⟨"declared", [".d.ts"], ()⟩]

theorem follows_suffix_nestedSuffixes :
    (∀ x, nestedSuffixes.owner? x ≠ some "") ∧
    (nestedSuffixes.ofFile? "src/./.lib/.Index.D.TS/").map Registration.name = some "declared" ∧
    nestedSuffixes.FollowsSuffix "src/./.lib/.Index.D.TS/" := by
  have hnamed : ∀ x, nestedSuffixes.owner? x ≠ some "" := by
    intro x howner
    change (if ".ts" = x then some "plain" else if ".d.ts" = x then some "declared" else none) =
      some "" at howner
    split_ifs at howner <;> simp at howner
  exact ⟨hnamed, rfl, follows_suffix hnamed _⟩

end Registry

end GuardClause
