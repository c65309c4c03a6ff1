import Mathlib.Data.List.Basic
import Lc3.LabelTable

/-!
# Lookups in label tables

A table is known by its bindings: both lookups find a binding exactly when it is among the entries,
and an insertion changes the bindings that it collides with and no other.
-/

namespace Lc3.LabelTable

variable {t : LabelTable} {name : String} {addr : Word} {e : Word × String}

theorem eq_of_addr_eq {es : List (Word × String)} (h : es.Pairwise fun a b => a.1 < b.1)
    {e f : Word × String} (he : e ∈ es) (hf : f ∈ es) (heq : e.1 = f.1) : e = f := by
  induction h with
  | nil => simp at he
  | cons hx _ ih =>
      rcases List.mem_cons.1 he with rfl | he' <;> rcases List.mem_cons.1 hf with rfl | hf'
      · rfl
      · exact absurd (heq ▸ hx f hf') (BitVec.lt_irrefl _)
      · exact absurd (heq ▸ hx e he') (BitVec.lt_irrefl _)
      · exact ih he' hf'

theorem eq_of_entries {t t' : LabelTable} (h : t.entries = t'.entries) : t = t' := by
  cases t
  cases t'
  cases h
  rfl

@[simp] theorem entries_empty : empty.entries = [] := rfl

/-! ## The two lookups -/

theorem addrOf?_eq_some_iff : t.addrOf? name = some addr ↔ (addr, name) ∈ t.entries := by
  simp only [addrOf?, Option.map_eq_some_iff]
  constructor
  · rintro ⟨e, he, rfl⟩
    have hname : e.2 = name := by simpa using List.find?_some he
    rw [← hname]
    exact List.mem_of_find?_eq_some he
  · intro h
    obtain ⟨e, he⟩ : ∃ e, t.entries.find? (fun e => e.2 = name) = some e := by
      rw [← Option.isSome_iff_exists, List.find?_isSome]
      exact ⟨_, h, by simp⟩
    have hname : e.2 = name := by simpa using List.find?_some he
    refine ⟨e, he, ?_⟩
    rw [eq_of_name_eq t.distinct (List.mem_of_find?_eq_some he) h hname]

theorem nameAt?_eq_some_iff : t.nameAt? addr = some name ↔ (addr, name) ∈ t.entries := by
  simp only [nameAt?, Option.map_eq_some_iff]
  constructor
  · rintro ⟨e, he, rfl⟩
    have haddr : e.1 = addr := by simpa using List.find?_some he
    rw [← haddr]
    exact List.mem_of_find?_eq_some he
  · intro h
    obtain ⟨e, he⟩ : ∃ e, t.entries.find? (fun e => e.1 = addr) = some e := by
      rw [← Option.isSome_iff_exists, List.find?_isSome]
      exact ⟨_, h, by simp⟩
    have haddr : e.1 = addr := by simpa using List.find?_some he
    refine ⟨e, he, ?_⟩
    rw [eq_of_addr_eq t.ordered (List.mem_of_find?_eq_some he) h haddr]

theorem addrOf?_eq_none_iff : t.addrOf? name = none ↔ ∀ e ∈ t.entries, e.2 ≠ name := by
  simp [addrOf?]

theorem nameAt?_eq_none_iff : t.nameAt? addr = none ↔ ∀ e ∈ t.entries, e.1 ≠ addr := by
  simp [nameAt?]

theorem addrOf?_iff_nameAt? : t.addrOf? name = some addr ↔ t.nameAt? addr = some name :=
  addrOf?_eq_some_iff.trans nameAt?_eq_some_iff.symm

/-- A binding collides with none of a table if its name and its address are free. -/
theorem forall_ne_iff : (∀ b ∈ t.entries, addr ≠ b.1 ∧ name ≠ b.2) ↔
    t.addrOf? name = none ∧ t.nameAt? addr = none := by
  rw [addrOf?_eq_none_iff, nameAt?_eq_none_iff]
  constructor
  · exact fun h => ⟨fun b hb heq => (h b hb).2 heq.symm, fun b hb heq => (h b hb).1 heq.symm⟩
  · exact fun ⟨hname, haddr⟩ b hb => ⟨(haddr b hb).symm, (hname b hb).symm⟩

theorem pairwise_entries (t : LabelTable) :
    t.entries.Pairwise fun a b => a.1 ≠ b.1 ∧ a.2 ≠ b.2 := by
  refine t.ordered.imp₂ (fun a b hlt hne => ⟨fun heq => ?_, hne⟩) t.distinct
  exact BitVec.lt_irrefl _ (heq ▸ hlt)

/-! ## Insertion -/

theorem mem_insert : e ∈ (t.insert name addr).entries ↔
    e = (addr, name) ∨ e ∈ t.entries ∧ e.1 ≠ addr ∧ e.2 ≠ name := by
  simp only [insert, inserted, List.mem_append, List.mem_cons, List.mem_filter,
    decide_eq_true_eq]
  have htri : e.1 ≠ addr ↔ e.1 < addr ∨ addr < e.1 := by
    simp only [ne_eq, BitVec.lt_def, ← BitVec.toNat_inj]
    omega
  rw [htri]
  tauto

/-- A binding that collides with none is added to the others. -/
theorem mem_insert_of_free (hname : t.addrOf? name = none) (haddr : t.nameAt? addr = none) :
    e ∈ (t.insert name addr).entries ↔ e = (addr, name) ∨ e ∈ t.entries := by
  rw [mem_insert]
  have hfree (he : e ∈ t.entries) : e.1 ≠ addr ∧ e.2 ≠ name :=
    ⟨nameAt?_eq_none_iff.1 haddr e he, addrOf?_eq_none_iff.1 hname e he⟩
  tauto

/-! ## Eviction and removal -/

theorem nodup_entries : t.entries.Nodup := t.distinct.imp fun h => fun heq => h (congrArg _ heq)

theorem mem_evicted : e ∈ t.evicted name addr ↔ e ∈ t.entries ∧ (e.1 = addr ∨ e.2 = name) := by
  simp only [evicted, List.mem_append, List.mem_filter, decide_eq_true_eq]
  tauto

theorem nodup_evicted : (t.evicted name addr).Nodup := by
  refine List.nodup_append.2 ⟨t.nodup_entries.filter _, t.nodup_entries.filter _, ?_⟩
  rintro b hb c hc rfl
  simp only [List.mem_filter, decide_eq_true_eq] at hb hc
  exact hc.2.2 hb.2

/-- Removing what is bound at an address removes one binding. -/
theorem mem_eraseAddr (h : (addr, name) ∈ t.entries) :
    e ∈ (t.eraseAddr addr).entries ↔ e ≠ (addr, name) ∧ e ∈ t.entries := by
  simp only [eraseAddr, filter, List.mem_filter, decide_eq_true_eq]
  constructor
  · rintro ⟨he, hne⟩
    exact ⟨fun heq => hne (congrArg Prod.fst heq), he⟩
  · rintro ⟨hne, he⟩
    exact ⟨he, fun heq => hne (eq_of_addr_eq t.ordered he h heq)⟩

/-- Removing a name removes one binding. -/
theorem mem_eraseName (h : (addr, name) ∈ t.entries) :
    e ∈ (t.eraseName name).entries ↔ e ≠ (addr, name) ∧ e ∈ t.entries := by
  simp only [eraseName, filter, List.mem_filter, decide_eq_true_eq]
  constructor
  · rintro ⟨he, hne⟩
    exact ⟨fun heq => hne (congrArg Prod.snd heq), he⟩
  · rintro ⟨hne, he⟩
    exact ⟨he, fun heq => hne (eq_of_name_eq t.distinct he h heq)⟩

end Lc3.LabelTable
