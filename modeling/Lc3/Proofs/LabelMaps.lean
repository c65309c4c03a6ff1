import Mathlib.Data.List.Basic
import Lc3.Proofs.LabelTable

/-!
# Label tables as two maps

A label table can be kept as a map from names to addresses and a map from addresses to names, each
of which is changed on its own. Main statement: whatever is done to the two maps, they stay inverse
to each other and hold the bindings that a label table holds to which the same is done.
-/

namespace Lc3

/-- Bindings by name and by address. -/
structure LabelMaps where
  byName : Std.HashMap String Word
  byAddr : Std.TreeMap Word String

namespace LabelMaps

/-- No bindings. -/
def empty : LabelMaps := ⟨∅, ∅⟩

/-- The address of a name. -/
def addrOf? (ms : LabelMaps) (name : String) : Option Word := ms.byName[name]?

/-- The name at an address. -/
def nameAt? (ms : LabelMaps) (addr : Word) : Option String := ms.byAddr[addr]?

/-- The bindings in the order of the map of addresses. -/
def bindings (ms : LabelMaps) : List (Word × String) := ms.byAddr.toList

/-- How many addresses have a name. -/
def size (ms : LabelMaps) : Nat := ms.byAddr.size

/-- The maps without a name and an address. -/
def unbind (ms : LabelMaps) (name : String) (addr : Word) : LabelMaps :=
  ⟨ms.byName.erase name, ms.byAddr.erase addr⟩

/-- Takes out the name at an address, and tells it. -/
def eraseAddr (ms : LabelMaps) (addr : Word) : Option String × LabelMaps :=
  match ms.byAddr[addr]? with
  | some name => (some name, ms.unbind name addr)
  | none => (none, ms)

/-- Takes out a name, and tells its address. -/
def eraseName (ms : LabelMaps) (name : String) : Option Word × LabelMaps :=
  match ms.byName[name]? with
  | some addr => (some addr, ms.unbind name addr)
  | none => (none, ms)

/-- Takes out what is in the way of a binding, which it tells, and puts the binding in. -/
def insert (ms : LabelMaps) (name : String) (addr : Word) : List (Word × String) × LabelMaps :=
  let there := ms.eraseAddr addr
  let named := there.2.eraseName name
  ((there.1.map fun old => (addr, old)).toList ++ (named.1.map fun old => (old, name)).toList,
    ⟨named.2.byName.insert name addr, named.2.byAddr.insert addr name⟩)

/-- The maps of a list of bindings, made in its order. -/
def ofList (bindings : List (String × Word)) : LabelMaps :=
  bindings.foldl (fun ms b => (ms.insert b.1 b.2).2) empty

end LabelMaps

/-- What can be done to a label table. -/
inductive LabelChange where
  | insert (name : String) (addr : Word)
  | eraseAddr (addr : Word)
  | eraseName (name : String)
  | clear
  | collect (bindings : List (String × Word))
  deriving DecidableEq, Repr

/-- A label table after a change. -/
def LabelTable.change (t : LabelTable) : LabelChange → LabelTable
  | .insert name addr => t.insert name addr
  | .eraseAddr addr => t.eraseAddr addr
  | .eraseName name => t.eraseName name
  | .clear => empty
  | .collect bindings => ofList bindings

/-- The two maps after a change. -/
def LabelMaps.change (ms : LabelMaps) : LabelChange → LabelMaps
  | .insert name addr => (ms.insert name addr).2
  | .eraseAddr addr => (ms.eraseAddr addr).2
  | .eraseName name => (ms.eraseName name).2
  | .clear => empty
  | .collect bindings => ofList bindings

/-! ## Tables -/

namespace LabelTable

variable {t t' : LabelTable} {name : String} {addr : Word}

/-- A table is known by which bindings it has. -/
theorem eq_of_mem_iff {es es' : List (Word × String)} (h : es.Pairwise fun a b => a.1 < b.1)
    (h' : es'.Pairwise fun a b => a.1 < b.1) (hmem : ∀ e, e ∈ es ↔ e ∈ es') : es = es' := by
  have hnodup {l : List (Word × String)} (hl : l.Pairwise fun a b => a.1 < b.1) : l.Nodup := by
    refine hl.imp fun {a b} hlt heq => ?_
    exact BitVec.lt_irrefl _ (heq ▸ hlt)
  refine List.Perm.eq_of_pairwise (fun a b _ _ hab hba => ?_) h h'
    ((List.perm_ext_iff_of_nodup (hnodup h) (hnodup h')).2 hmem)
  exact absurd (BitVec.lt_trans hab hba) (BitVec.lt_irrefl _)

theorem eraseAddr_of_free (h : t.nameAt? addr = none) : t.eraseAddr addr = t :=
  eq_of_entries (List.filter_eq_self.2 fun e he => by simpa using nameAt?_eq_none_iff.1 h e he)

theorem eraseName_of_free (h : t.addrOf? name = none) : t.eraseName name = t :=
  eq_of_entries (List.filter_eq_self.2 fun e he => by simpa using addrOf?_eq_none_iff.1 h e he)

/-- An insertion makes place first. -/
theorem insert_eq : t.insert name addr = ((t.eraseAddr addr).eraseName name).insert name addr := by
  refine eq_of_entries (eq_of_mem_iff (insert _ _ _).ordered (insert _ _ _).ordered fun e => ?_)
  simp only [mem_insert, eraseAddr, eraseName, filter, List.mem_filter, decide_eq_true_eq]
  tauto

theorem addrOf?_eraseName : (t.eraseName name).addrOf? name = none :=
  addrOf?_eq_none_iff.2 fun _ he => of_decide_eq_true (List.mem_filter.1 he).2

theorem nameAt?_eraseName_of_free (h : t.nameAt? addr = none) :
    (t.eraseName name).nameAt? addr = none :=
  nameAt?_eq_none_iff.2 fun e he => nameAt?_eq_none_iff.1 h e (List.mem_filter.1 he).1

theorem nameAt?_eraseAddr : (t.eraseAddr addr).nameAt? addr = none :=
  nameAt?_eq_none_iff.2 fun _ he => of_decide_eq_true (List.mem_filter.1 he).2

/-- If no two elements pass a test, the first that does is the only one. -/
theorem filter_eq_find? {es : List (Word × String)} {p : Word × String → Bool}
    (h : es.Pairwise fun a b => p a = true → p b = false) :
    es.filter p = (es.find? p).toList := by
  induction h with
  | nil => rfl
  | @cons e es he _ ih =>
      cases hp : p e with
      | false =>
          have hneg : ¬ p e = true := by simp [hp]
          rw [List.filter_cons_of_neg hneg, List.find?_cons_of_neg hneg, ih]
      | true =>
          have hrest : es.filter p = [] := by
            simpa using fun a ha => he a ha hp
          rw [List.filter_cons_of_pos hp, List.find?_cons_of_pos hp, hrest]
          rfl

theorem filter_addr : t.entries.filter (fun e => e.1 = addr) =
    ((t.nameAt? addr).map fun old => (addr, old)).toList := by
  have hone : t.entries.Pairwise fun a b =>
      decide (a.1 = addr) = true → decide (b.1 = addr) = false := by
    refine t.ordered.imp fun {a b} hlt ha => decide_eq_false fun hb => ?_
    exact BitVec.lt_irrefl _ (hb ▸ of_decide_eq_true ha ▸ hlt)
  rw [filter_eq_find? hone, nameAt?]
  cases h : t.entries.find? fun e => e.1 = addr with
  | none => rfl
  | some e =>
      have haddr : e.1 = addr := by simpa using List.find?_some h
      simp [← haddr]

theorem filter_name : t.entries.filter (fun e => e.2 = name) =
    ((t.addrOf? name).map fun old => (old, name)).toList := by
  have hone : t.entries.Pairwise fun a b =>
      decide (a.2 = name) = true → decide (b.2 = name) = false := by
    refine t.distinct.imp fun {a b} hne ha => decide_eq_false fun hb => ?_
    exact hne ((of_decide_eq_true ha).trans hb.symm)
  rw [filter_eq_find? hone, addrOf?]
  cases h : t.entries.find? fun e => e.2 = name with
  | none => rfl
  | some e =>
      have hname : e.2 = name := by simpa using List.find?_some h
      simp [← hname]

/-- What an insertion collides with: the binding of the address, and then that of the name. -/
theorem evicted_eq : t.evicted name addr =
    ((t.nameAt? addr).map fun old => (addr, old)).toList ++
      (((t.eraseAddr addr).addrOf? name).map fun old => (old, name)).toList := by
  rw [evicted, filter_addr, ← filter_name, eraseAddr, filter, List.filter_filter]
  simp only [Bool.decide_and]

end LabelTable

namespace LabelMaps

variable {ms : LabelMaps} {t t' : LabelTable} {name : String} {addr : Word}

/-- Both maps hold the bindings of a table. -/
structure Holds (ms : LabelMaps) (t : LabelTable) : Prop where
  byName : ∀ name addr, ms.addrOf? name = some addr ↔ (addr, name) ∈ t.entries
  byAddr : ∀ name addr, ms.nameAt? addr = some name ↔ (addr, name) ∈ t.entries

namespace Holds

theorem empty : LabelMaps.empty.Holds LabelTable.empty where
  byName := by simp [LabelMaps.empty, addrOf?]
  byAddr := by simp [LabelMaps.empty, nameAt?]

theorem addrOf?_eq (h : ms.Holds t) : ms.addrOf? name = t.addrOf? name :=
  Option.ext fun addr => (h.byName name addr).trans LabelTable.addrOf?_eq_some_iff.symm

theorem nameAt?_eq (h : ms.Holds t) : ms.nameAt? addr = t.nameAt? addr :=
  Option.ext fun name => (h.byAddr name addr).trans LabelTable.nameAt?_eq_some_iff.symm

theorem unbind (h : ms.Holds t) (hmem : (addr, name) ∈ t.entries)
    (ht : ∀ e, e ∈ t'.entries ↔ e ≠ (addr, name) ∧ e ∈ t.entries) :
    (ms.unbind name addr).Holds t' where
  byName := by
    intro n a
    have hname : ms.byName[name]? = some addr := (h.byName name addr).2 hmem
    rw [ht, ← h.byName, addrOf?, addrOf?, LabelMaps.unbind, Std.HashMap.getElem?_erase]
    by_cases hn : name = n
    · subst hn
      simp [hname, eq_comm]
    · simp [hn, Ne.symm hn]
  byAddr := by
    intro n a
    have haddr : ms.byAddr[addr]? = some name := (h.byAddr name addr).2 hmem
    rw [ht, ← h.byAddr, nameAt?, nameAt?, LabelMaps.unbind, Std.TreeMap.getElem?_erase]
    by_cases ha : addr = a
    · subst ha
      simp [haddr, eq_comm]
    · simp [ha, Ne.symm ha]

theorem bind (h : ms.Holds t) (hname : t.addrOf? name = none) (haddr : t.nameAt? addr = none) :
    (LabelMaps.mk (ms.byName.insert name addr) (ms.byAddr.insert addr name)).Holds
      (t.insert name addr) where
  byName := by
    intro n a
    have hfree : ms.byName[name]? = none := h.addrOf?_eq.trans hname
    rw [LabelTable.mem_insert_of_free hname haddr, ← h.byName, addrOf?, addrOf?,
      Std.HashMap.getElem?_insert]
    by_cases hn : name = n
    · subst hn
      simp [hfree, eq_comm]
    · simp [hn, Ne.symm hn]
  byAddr := by
    intro n a
    have hfree : ms.byAddr[addr]? = none := h.nameAt?_eq.trans haddr
    rw [LabelTable.mem_insert_of_free hname haddr, ← h.byAddr, nameAt?, nameAt?,
      Std.TreeMap.getElem?_insert]
    by_cases ha : addr = a
    · subst ha
      simp [hfree, eq_comm]
    · simp [ha, Ne.symm ha]

theorem eraseAddr (h : ms.Holds t) (addr : Word) : (ms.eraseAddr addr).1 = t.nameAt? addr ∧
    (ms.eraseAddr addr).2.Holds (t.eraseAddr addr) := by
  have heq : ms.byAddr[addr]? = t.nameAt? addr := h.nameAt?_eq
  rw [LabelMaps.eraseAddr, heq]
  cases hname : t.nameAt? addr with
  | none =>
      rw [LabelTable.eraseAddr_of_free hname]
      exact ⟨rfl, h⟩
  | some name =>
      have hmem := LabelTable.nameAt?_eq_some_iff.1 hname
      exact ⟨rfl, h.unbind hmem fun _ => LabelTable.mem_eraseAddr hmem⟩

theorem eraseName (h : ms.Holds t) (name : String) : (ms.eraseName name).1 = t.addrOf? name ∧
    (ms.eraseName name).2.Holds (t.eraseName name) := by
  have heq : ms.byName[name]? = t.addrOf? name := h.addrOf?_eq
  rw [LabelMaps.eraseName, heq]
  cases haddr : t.addrOf? name with
  | none =>
      rw [LabelTable.eraseName_of_free haddr]
      exact ⟨rfl, h⟩
  | some addr =>
      have hmem := LabelTable.addrOf?_eq_some_iff.1 haddr
      exact ⟨rfl, h.unbind hmem fun _ => LabelTable.mem_eraseName hmem⟩

theorem insert (h : ms.Holds t) (name : String) (addr : Word) :
    (ms.insert name addr).1 = t.evicted name addr ∧
      (ms.insert name addr).2.Holds (t.insert name addr) := by
  obtain ⟨hthere, haddr⟩ := h.eraseAddr addr
  obtain ⟨hnamed, hname⟩ := haddr.eraseName name
  rw [LabelMaps.insert]
  constructor
  · rw [hthere, hnamed, ← LabelTable.evicted_eq]
  · rw [LabelTable.insert_eq]
    exact hname.bind LabelTable.addrOf?_eraseName
      (LabelTable.nameAt?_eraseName_of_free LabelTable.nameAt?_eraseAddr)

theorem collect {bindings : List (String × Word)} (h : ms.Holds t) :
    (bindings.foldl (fun ms b => (ms.insert b.1 b.2).2) ms).Holds
      (bindings.foldl (fun t b => t.insert b.1 b.2) t) := by
  induction bindings generalizing ms t with
  | nil => exact h
  | cons b bindings ih => exact ih (h.insert b.1 b.2).2

theorem change (h : ms.Holds t) (c : LabelChange) : (ms.change c).Holds (t.change c) := by
  cases c with
  | insert name addr => exact (h.insert name addr).2
  | eraseAddr addr => exact (h.eraseAddr addr).2
  | eraseName name => exact (h.eraseName name).2
  | clear => exact Holds.empty
  | collect bindings => exact Holds.empty.collect

/-- What is done step by step to the maps and to the table leaves them with the same bindings. -/
theorem changes {cs : List LabelChange} (h : ms.Holds t) :
    (cs.foldl LabelMaps.change ms).Holds (cs.foldl LabelTable.change t) := by
  induction cs generalizing ms t with
  | nil => exact h
  | cons c cs ih => exact ih (h.change c)

theorem bindings_eq (h : ms.Holds t) : ms.bindings = t.entries := by
  refine LabelTable.eq_of_mem_iff ?_ t.ordered fun e => ?_
  · exact ms.byAddr.ordered_keys_toList.imp fun hlt => compareOfLessAndEq_eq_lt.1 hlt
  · rw [LabelMaps.bindings, Std.TreeMap.mem_toList_iff_getElem?_eq_some]
    exact h.byAddr e.2 e.1

end Holds

/-! ## Main statement -/

/-- The maps are inverse to each other, and listed in order. -/
structure OneToOne (ms : LabelMaps) : Prop where
  inverse : ∀ name addr, ms.addrOf? name = some addr ↔ ms.nameAt? addr = some name
  listed : ∀ name addr, (addr, name) ∈ ms.bindings ↔ ms.addrOf? name = some addr
  ordered : ms.bindings.Pairwise fun a b => a.1 < b.1
  size : ms.size = ms.bindings.length

/-- From `ms` to `ms'` a binding was put in, and exactly those that it collides with were taken out:
each is told once, the one at the address first. -/
structure Inserts (ms : LabelMaps) (name : String) (addr : Word) (evicted : List (Word × String))
    (ms' : LabelMaps) : Prop where
  mem_evicted : ∀ e, e ∈ evicted ↔ e ∈ ms.bindings ∧ (e.1 = addr ∨ e.2 = name)
  nodup : evicted.Nodup
  first : ∀ old, ms.nameAt? addr = some old → evicted.head? = some (addr, old)
  mem : ∀ e, e ∈ ms'.bindings ↔ e = (addr, name) ∨ e ∈ ms.bindings ∧ e ∉ evicted

/-- A table answers as the maps do. -/
structure Agrees (ms : LabelMaps) (t : LabelTable) : Prop where
  addrOf? : ∀ name, t.addrOf? name = ms.addrOf? name
  nameAt? : ∀ addr, t.nameAt? addr = ms.nameAt? addr
  entries : t.entries = ms.bindings
  size : t.size = ms.size
  evicted : ∀ name addr, t.evicted name addr = (ms.insert name addr).1

theorem Holds.oneToOne (h : ms.Holds t) : ms.OneToOne where
  inverse := fun name addr => (h.byName name addr).trans (h.byAddr name addr).symm
  listed := fun name addr => h.bindings_eq ▸ (h.byName name addr).symm
  ordered := h.bindings_eq ▸ t.ordered
  size := Std.TreeMap.length_toList.symm

theorem Holds.inserts (h : ms.Holds t) :
    ms.Inserts name addr (ms.insert name addr).1 (ms.insert name addr).2 := by
  obtain ⟨hevicted, hafter⟩ := h.insert name addr
  rw [hevicted]
  refine ⟨fun e => ?_, LabelTable.nodup_evicted, fun old hold => ?_, fun e => ?_⟩
  · rw [LabelTable.mem_evicted, h.bindings_eq]
  · rw [h.nameAt?_eq] at hold
    simp [LabelTable.evicted_eq, hold]
  · rw [hafter.bindings_eq, h.bindings_eq, LabelTable.mem_insert, LabelTable.mem_evicted]
    tauto

theorem Holds.agrees (h : ms.Holds t) : ms.Agrees t where
  addrOf? := fun _ => h.addrOf?_eq.symm
  nameAt? := fun _ => h.nameAt?_eq.symm
  entries := h.bindings_eq.symm
  size := (congrArg List.length h.bindings_eq.symm).trans h.oneToOne.size.symm
  evicted := fun name addr => (h.insert name addr).1.symm

/-- Whatever is done to the empty table, in two maps and as one list: the maps are inverse to each
other, an insertion takes out what it collides with and nothing else, a removal takes out the
binding that it finds, if there is one, and the list answers as the maps do. -/
theorem one_to_one (cs : List LabelChange) :
    let ms := cs.foldl LabelMaps.change empty
    ms.OneToOne ∧
    (∀ name addr, ms.Inserts name addr (ms.insert name addr).1 (ms.insert name addr).2) ∧
    (∀ addr, (ms.eraseAddr addr).1 = ms.nameAt? addr ∧
      (ms.eraseAddr addr).2.bindings = ms.bindings.filter fun e => e.1 ≠ addr) ∧
    (∀ name, (ms.eraseName name).1 = ms.addrOf? name ∧
      (ms.eraseName name).2.bindings = ms.bindings.filter fun e => e.2 ≠ name) ∧
    ms.Agrees (cs.foldl LabelTable.change .empty) := by
  intro ms
  have h : ms.Holds (cs.foldl LabelTable.change .empty) := Holds.empty.changes
  refine ⟨h.oneToOne, fun name addr => h.inserts, fun addr => ?_, fun name => ?_, h.agrees⟩
  · obtain ⟨hanswer, hafter⟩ := h.eraseAddr addr
    rw [hanswer, hafter.bindings_eq, h.bindings_eq]
    exact ⟨h.nameAt?_eq.symm, rfl⟩
  · obtain ⟨hanswer, hafter⟩ := h.eraseName name
    rw [hanswer, hafter.bindings_eq, h.bindings_eq]
    exact ⟨h.addrOf?_eq.symm, rfl⟩

end LabelMaps

end Lc3
