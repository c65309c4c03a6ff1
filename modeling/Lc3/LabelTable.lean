import Lc3.Word

/-!
# Label tables

A label table binds names to addresses one to one: an address has at most one name and a name at
most one address. The bindings are kept in increasing order of address. A new binding takes the
place of those that it collides with.
-/

namespace Lc3

/-- Bindings of addresses and names, in increasing order of address, with no name twice. -/
structure LabelTable where
  entries : List (Word × String)
  ordered : entries.Pairwise fun a b => a.1 < b.1
  distinct : entries.Pairwise fun a b => a.2 ≠ b.2
  deriving DecidableEq, Repr

namespace LabelTable

/-- The table without bindings. -/
def empty : LabelTable := ⟨[], .nil, .nil⟩

/-- The number of bindings. -/
def size (t : LabelTable) : Nat := t.entries.length

/-- Whether there are no bindings. -/
def isEmpty (t : LabelTable) : Bool := t.entries.isEmpty

/-- The address of a name. Names differ in case. -/
def addrOf? (t : LabelTable) (name : String) : Option Word :=
  (t.entries.find? fun e => e.2 = name).map (·.1)

/-- The name at an address. -/
def nameAt? (t : LabelTable) (addr : Word) : Option String :=
  (t.entries.find? fun e => e.1 = addr).map (·.2)

/-- The table with the bindings that satisfy a test. -/
def filter (t : LabelTable) (keep : Word × String → Bool) : LabelTable :=
  ⟨t.entries.filter keep, t.ordered.filter keep, t.distinct.filter keep⟩

/-- The table without the binding of an address. -/
def eraseAddr (t : LabelTable) (addr : Word) : LabelTable := t.filter fun e => e.1 ≠ addr

/-- The table without the binding of a name. -/
def eraseName (t : LabelTable) (name : String) : LabelTable := t.filter fun e => e.2 ≠ name

/-- The bindings that a new one collides with: the one at its address first. -/
def evicted (t : LabelTable) (name : String) (addr : Word) : List (Word × String) :=
  t.entries.filter (fun e => e.1 = addr) ++ t.entries.filter (fun e => e.2 = name ∧ e.1 ≠ addr)

/-- The bindings with a new one at its place in the order, without those it collides with. -/
def inserted (es : List (Word × String)) (name : String) (addr : Word) : List (Word × String) :=
  es.filter (fun e => e.1 < addr ∧ e.2 ≠ name) ++
    (addr, name) :: es.filter (fun e => addr < e.1 ∧ e.2 ≠ name)

theorem ordered_inserted {es : List (Word × String)} (name : String) (addr : Word)
    (h : es.Pairwise fun a b => a.1 < b.1) :
    (inserted es name addr).Pairwise fun a b => a.1 < b.1 := by
  refine List.pairwise_append.2 ⟨h.filter _, List.pairwise_cons.2 ⟨?_, h.filter _⟩, ?_⟩
  · intro e he
    simp only [List.mem_filter, decide_eq_true_eq] at he
    exact he.2.1
  · intro e he f hf
    simp only [List.mem_filter, decide_eq_true_eq, List.mem_cons] at he hf
    rcases hf with rfl | hf
    · exact he.2.1
    · exact BitVec.lt_trans he.2.1 hf.2.1

/-- Bindings with one name are one binding. -/
theorem eq_of_name_eq {es : List (Word × String)} (h : es.Pairwise fun a b => a.2 ≠ b.2)
    {e f : Word × String} (he : e ∈ es) (hf : f ∈ es) (heq : e.2 = f.2) : e = f := by
  induction h with
  | nil => simp at he
  | cons hx _ ih =>
    rcases List.mem_cons.1 he with rfl | he' <;> rcases List.mem_cons.1 hf with rfl | hf'
    · rfl
    · exact absurd heq (hx f hf')
    · exact absurd heq.symm (hx e he')
    · exact ih he' hf'

theorem distinct_inserted {es : List (Word × String)} (name : String) (addr : Word)
    (h : es.Pairwise fun a b => a.2 ≠ b.2) :
    (inserted es name addr).Pairwise fun a b => a.2 ≠ b.2 := by
  refine List.pairwise_append.2 ⟨h.filter _, List.pairwise_cons.2 ⟨?_, h.filter _⟩, ?_⟩
  · intro e he
    simp only [List.mem_filter, decide_eq_true_eq] at he
    exact fun heq => he.2.2 heq.symm
  · intro e he f hf
    simp only [List.mem_filter, decide_eq_true_eq, List.mem_cons] at he hf
    rcases hf with rfl | hf
    · exact he.2.2
    · intro heq
      have hlt := BitVec.lt_trans he.2.1 hf.2.1
      rw [eq_of_name_eq h he.1 hf.1 heq] at hlt
      exact BitVec.lt_irrefl _ hlt

/-- The table with a new binding. -/
def insert (t : LabelTable) (name : String) (addr : Word) : LabelTable :=
  ⟨inserted t.entries name addr, ordered_inserted name addr t.ordered,
   distinct_inserted name addr t.distinct⟩

/-- The table of a list of bindings, made in its order. -/
def ofList (bindings : List (String × Word)) : LabelTable :=
  bindings.foldl (fun t b => t.insert b.1 b.2) empty

end LabelTable

end Lc3
