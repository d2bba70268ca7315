import GuardClause.Log.Sink

/-!
# Adapters that share dictionaries

The context of an adapter is a dictionary in memory, and so are the fields that a call gives. A
call brings the fields of its adapter into the very dictionary that it is given
(`Memory.log`). Whoever holds that dictionary sees them there, be it the caller, who may pass it
again, or another adapter whose context it is.

A new adapter has a dictionary of its own. A scope keeps a copy of the context aside and gives the
adapter a new dictionary; when it is left, the copy becomes the dictionary of the adapter.
-/

namespace GuardClause.Log

/-- A logger, and the address of the dictionary that is its context. -/
structure Handle where
  logger : String
  context : Nat
deriving DecidableEq, Repr

/-- The dictionaries by address, and the adapters in the order in which they were made. -/
structure Memory where
  dicts : List (Table Value) := []
  handles : List Handle := []

namespace Memory

/-- What the dictionary at an address holds. -/
def read (m : Memory) (address : Nat) : Table Value := m.dicts[address]?.getD []

def adapter (m : Memory) (h : Handle) : Adapter := ⟨h.logger, m.read h.context⟩

/-- The adapter with a number. -/
def adapter? (m : Memory) (i : Nat) : Option Adapter := m.handles[i]?.map m.adapter

/-- The memory with a new dictionary behind the others. -/
def make (m : Memory) (fields : Table Value) : Memory := { m with dicts := m.dicts ++ [fields] }

def write (m : Memory) (address : Nat) (fields : Table Value) : Memory :=
  { m with dicts := m.dicts.set address fields }

/-- The memory with a new adapter behind the others, whose context is a new dictionary. -/
def add (m : Memory) (a : Adapter) : Memory :=
  ⟨m.dicts ++ [a.context], m.handles ++ [⟨a.logger, m.dicts.length⟩]⟩

/-- Another dictionary as the context of an adapter. -/
def rebind (m : Memory) (i address : Nat) : Memory :=
  { m with handles := m.handles.modify i fun h => { h with context := address } }

/-- Entering a scope on an adapter. The present context is kept at the address that is free
before. -/
def enter (m : Memory) (i : Nat) (h : Handle) (fields : Table Value) : Memory :=
  let (scope, a) := Scope.enter (m.adapter h) fields
  ((m.make scope.saved).make a.context).rebind i (m.dicts.length + 1)

/-- Leaving a scope on an adapter whose context was kept at an address. -/
def leave (m : Memory) (i saved : Nat) : Memory := m.rebind i saved

/-- A call through an adapter, with the dictionary at an address for its fields or with null: its
outcome, and the memory after it. A call that is not enabled leaves the dictionary alone. -/
def log (m : Memory) (s : Sink) (h : Handle) (level : Level) (message : String)
    (own : Option Nat) (error : Option ErrorInfo) :
    Except RecordFault (List Record) × Memory :=
  (s.log (m.adapter h) level message (own.map m.read) error,
    match own with
    | some address =>
        if s.isEnabled h.logger level then
          m.write address ((m.adapter h).process (m.read address))
        else m
    | none => m)

/-- A call with a new dictionary for its fields. -/
def logFresh (m : Memory) (s : Sink) (h : Handle) (level : Level) (message : String)
    (fields : Table Value) (error : Option ErrorInfo) :
    Except RecordFault (List Record) × Memory :=
  (m.make fields).log s h level message (some m.dicts.length) error

end Memory

end GuardClause.Log
