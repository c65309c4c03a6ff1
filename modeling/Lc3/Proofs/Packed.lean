import Lc3.Proofs.Service

/-!
# Packed strings

`PUTSP` takes two characters out of each word. Main statement: it shows the characters of all words
up to the first one without a high character, and goes on after the trap as if nothing else had
happened. A word with a high character but without a low one does not end the string: its zero
character is shown like any other.
-/

namespace Lc3

open Os (Up)

/-! ## Words as two characters -/

namespace Word

/-- The low character. -/
def low (w : Word) : Byte := w.setWidth 8

/-- The high character. -/
def high (w : Word) : Byte := w.extractLsb' 8 8

/-- The characters of a word, the low one first. -/
def chars (w : Word) : List Byte := [w.low, w.high]

variable {w h l : Word}

theorem toNat_append : (h ++ l).toNat = h.toNat * 65536 + l.toNat := by
  rw [BitVec.toNat_append, ← Nat.shiftLeft_add_eq_or_of_lt l.isLt, Nat.shiftLeft_eq]

/-- Two words are shifted as one, if the sign of the right one is carried into the left one. -/
theorem append_carry :
    (h + h + (if l.msb then 1 else 0 : Word)) ++ (l + l) = (h ++ l) <<< 1 := by
  have hmsb := BitVec.msb_eq_decide l
  apply BitVec.eq_of_toNat_eq
  rw [toNat_append, BitVec.toNat_shiftLeft, toNat_append, Nat.shiftLeft_eq, BitVec.toNat_add,
    BitVec.toNat_add, BitVec.toNat_add]
  have hh := h.isLt
  have hl := l.isLt
  cases hcarry : l.msb with
  | true =>
      have hbit : 32768 ≤ l.toNat := of_decide_eq_true (hmsb.symm.trans hcarry)
      have hone : (if true = true then 1 else 0 : Word).toNat = 1 := rfl
      rw [hone]
      omega
  | false =>
      have hbit : ¬ 32768 ≤ l.toNat := of_decide_eq_false (hmsb.symm.trans hcarry)
      have hnone : (if false = true then 1 else 0 : Word).toNat = 0 := rfl
      rw [hnone]
      omega

theorem eq_high_of_append (hshift : h ++ l = (0#16 ++ w) <<< 8) : h = w.high.setWidth 16 := by
  have hnat := congrArg BitVec.toNat hshift
  rw [toNat_append, BitVec.toNat_shiftLeft, toNat_append, Nat.shiftLeft_eq] at hnat
  have hw := w.isLt
  have hl := l.isLt
  apply BitVec.eq_of_toNat_eq
  simp [high, Nat.shiftRight_eq_div_pow] at hnat ⊢
  omega

theorem low_and_mask : (w &&& 0x00FF).setWidth 8 = w.low := by
  rw [BitVec.setWidth_and]
  exact BitVec.and_allOnes

theorem eq_zero_of_chars (hhigh : w.high = 0) (hlow : w.low = 0) : w = 0 := by
  have hhigh := congrArg BitVec.toNat hhigh
  have hlow := congrArg BitVec.toNat hlow
  have hw := w.isLt
  apply BitVec.eq_of_toNat_eq
  simp [high, low, Nat.shiftRight_eq_div_pow] at hhigh hlow ⊢
  omega

theorem setWidth_high : (w.high.setWidth 16).setWidth 8 = w.high := by
  rw [BitVec.setWidth_setWidth_of_le _ (by decide), BitVec.setWidth_eq]

theorem setWidth_high_eq_zero : w.high.setWidth 16 = 0 ↔ w.high = 0 := by
  constructor
  · intro hw
    rw [← setWidth_high, hw]
    rfl
  · intro hw
    rw [hw]
    rfl

end Word

/-- What is shown of a packed string in these words: both characters of every word before the first
one without a high character, and the low character of that one, if it has one. -/
def Os.packed : List Word → List Byte
  | [] => []
  | w :: ws =>
    if w.high = 0 then if w.low = 0 then [] else [w.low]
    else w.chars ++ packed ws

/-- These are the characters before the first zero one exactly if no word but the last one of the
string has a zero low character. -/
theorem Os.packed_eq_iff {vs : List Word} :
    packed vs = (vs.flatMap Word.chars).takeWhile (· ≠ 0) ↔
      ∀ w ∈ vs.takeWhile (·.high ≠ 0), w.low ≠ 0 := by
  induction vs with
  | nil => simp [packed]
  | cons w ws ih =>
      rw [packed, List.flatMap_cons, Word.chars]
      by_cases hhigh : w.high = 0#8
      · by_cases hlow : w.low = 0#8 <;> simp [hhigh, hlow]
      · by_cases hlow : w.low = 0#8
        · simp [hhigh, hlow]
        · simpa [hhigh, hlow] using ih

namespace Outline

variable {o : Outline} {w : Word} {vs : List Word}

theorem takes_zp (ho : o.condition = some (.ofValue w)) : o.takes 0b011 = !w.msb := by
  rw [takes, ho]
  by_cases hw : w = 0
  · subst hw
    rfl
  · rw [Condition.ofValue, if_neg hw]
    cases w.msb <;> rfl

namespace Leads

/-! ## Shifting -/

/-- The sign of `R2`, which was tested last, is added to `R3`. -/
theorem carry (hup : Up o.cell) (hcondition : o.condition = some (.ofValue (o.general 2))) :
    ∃ condition, Leads { o with pc := 0x25E } { o with
      pc := 0x260
      general := Function.update o.general 3
        (o.general 3 + (if (o.general 2).msb then 1 else 0 : Word))
      condition } := by
  obtain ⟨-, -, -, -, ⟨-, -, -, -, -, hbr, hadd, -⟩, -⟩ := Os.placed_putsp
  have htakes : Outline.takes { o with pc := 0x25E } 0b011 = !(o.general 2).msb :=
    takes_zp hcondition
  cases hsign : (o.general 2).msb with
  | true =>
      rw [hsign] at htakes
      have hpass := pass (o := { o with pc := 0x25E }) (hup.lies hbr) htakes
      exact ⟨_, hpass.trans (add (o := { o with pc := 0x25F }) (hup.lies hadd) rfl)⟩
  | false =>
      rw [hsign] at htakes
      have hsame : Function.update o.general 3 (o.general 3 + 0) = o.general := by
        have hzero : o.general 3 + 0 = o.general 3 := BitVec.add_zero _
        rw [hzero]
        exact Function.update_eq_self 3 o.general
      refine ⟨o.condition, ?_⟩
      simp only [Bool.false_eq_true, if_false]
      rw [hsame]
      exact branch (o := { o with pc := 0x25E }) (hup.lies hbr) htakes

/-- One round of shifting `R3` and `R2`. -/
theorem shiftOne (hup : Up o.cell) : ∃ general, (∀ r ∉ [2, 3, 4], general r = o.general r) ∧
    general 4 = o.general 4 - 1 ∧
    general 3 ++ general 2 = (o.general 3 ++ o.general 2) <<< 1 ∧
    Leads { o with pc := 0x25C } { o with
      pc := 0x262
      general
      condition := some (.ofValue (o.general 4 - 1)) } := by
  obtain ⟨-, -, -, -, ⟨-, -, -, hdouble, htest, -, -, hshift, hcount, -⟩, -⟩ := Os.placed_putsp
  let h := o.general 3
  let l := o.general 2
  let doubled : Outline := { o with
    pc := 0x25D
    general := Function.update o.general 3 (h + h)
    condition := some (.ofValue (h + h)) }
  let tested : Outline := { o with
    pc := 0x25E
    general := Function.update doubled.general 2 l
    condition := some (.ofValue l) }
  have htested : Leads { o with pc := 0x25C } tested :=
    (Leads.add (o := { o with pc := 0x25C }) (hup.lies hdouble) rfl).trans
      (.add (o := doubled) (hup.lies htest) (BitVec.add_zero l))
  obtain ⟨condition, hcarried⟩ := carry (o := tested) hup rfl
  let carried : Outline := { o with
    pc := 0x260
    general := Function.update tested.general 3 (h + h + (if l.msb then 1 else 0 : Word))
    condition }
  let shifted : Outline := { o with
    pc := 0x261
    general := Function.update carried.general 2 (l + l)
    condition := some (.ofValue (l + l)) }
  have hshifted : carried.Leads shifted := add (o := carried) (hup.lies hshift) rfl
  have hminus : shifted.general 4 + shifted.source (.imm (-1)) = o.general 4 - 1 := by
    rw [BitVec.sub_eq_add_neg]
    rfl
  have hcounted := add (o := shifted) (hup.lies hcount) hminus
  let general := Function.update shifted.general 4 (o.general 4 - 1)
  refine ⟨general, fun r hr => ?_, Function.update_self _ _ _, ?_,
    ((htested.trans hcarried).trans hshifted).trans hcounted⟩
  · simp only [List.mem_cons, List.not_mem_nil, or_false, not_or] at hr
    simp only [general, shifted, carried, tested, doubled, Function.update_of_ne, hr, ne_eq,
      not_false_eq_true]
  · exact Word.append_carry

/-- Shifting `R3` and `R2`, taken as one word of 32 bits, as often as `R4` says. -/
theorem shift (hup : Up o.cell) {n : Nat} (hn : n < 8)
    (hcount : o.general 4 = BitVec.ofNat 16 (n + 1)) : ∃ general condition,
    (∀ r ∉ [2, 3, 4], general r = o.general r) ∧
      general 3 ++ general 2 = (o.general 3 ++ o.general 2) <<< (n + 1) ∧
      Leads { o with pc := 0x25C } { o with pc := 0x263, general, condition } := by
  obtain ⟨-, -, -, -, ⟨-, -, -, -, -, -, -, -, -, hbr, -⟩, -⟩ := Os.placed_putsp
  induction n generalizing o with
  | zero =>
      obtain ⟨general, hkept, -, hround, hone⟩ := shiftOne hup
      have hlast : o.general 4 - 1 = 0 := by
        rw [hcount]
        rfl
      rw [hlast] at hone
      exact ⟨general, _, hkept, hround, hone.trans
        (pass (o := { o with pc := 0x262, general, condition := some .zero }) (hup.lies hbr) rfl)⟩
  | succ n ih =>
      obtain ⟨general, hkept, hfour, hround, hone⟩ := shiftOne hup
      have hfewer : o.general 4 - 1 = BitVec.ofNat 16 (n + 1) := by
        rw [hcount]
        bv_omega
      -- There are rounds left, and so few that the count is positive as a number with a sign.
      have hpositive : ∀ n < 7, Condition.ofValue (BitVec.ofNat 16 (n + 1)) = .positive := by decide
      rw [hfewer] at hfour hone
      rw [hpositive n (by omega)] at hone
      let again : Outline := { o with pc := 0x262, general, condition := some .positive }
      have hback : again.Leads { again with pc := 0x25C } := branch (o := again) (hup.lies hbr) rfl
      obtain ⟨general', condition, hkept', hrounds, hrest⟩ :=
        ih (o := again) hup (by omega) hfour
      refine ⟨general', condition, fun r hr => (hkept' r hr).trans (hkept r hr), ?_,
        (hone.trans hback).trans hrest⟩
      rw [hrounds, hround, ← BitVec.shiftLeft_add, Nat.add_comm 1]

/-- The high character of `R2` is moved into `R3`. -/
theorem moveHigh (hup : Up o.cell) : ∃ general condition,
    (∀ r ∉ [2, 3, 4], general r = o.general r) ∧
      general 3 = (o.general 2).high.setWidth 16 ∧
      Leads { o with pc := 0x259 } { o with pc := 0x263, general, condition } := by
  obtain ⟨-, -, -, -, ⟨hclear, hzero, hcount, -⟩, -⟩ := Os.placed_putsp
  let cleared : Outline := { o with
    pc := 0x25A
    general := Function.update o.general 3 0
    condition := some .zero }
  let ready : Outline := { o with
    pc := 0x25C
    general := Function.update (Function.update cleared.general 4 0) 4 8
    condition := some .positive }
  have hcleared : Leads { o with pc := 0x259 } cleared :=
    and (o := { o with pc := 0x259 }) (hup.lies hclear) BitVec.and_zero
  have hready : cleared.Leads ready :=
    (and (o := cleared) (hup.lies hzero) BitVec.and_zero).trans
      (add (o := { cleared with pc := 0x25B, general := Function.update cleared.general 4 0 })
        (hup.lies hcount) rfl)
  obtain ⟨general, condition, hkept, hshift, hrounds⟩ := shift (o := ready) (n := 7) hup
    (by decide) rfl
  refine ⟨general, condition, fun r hr => ?_, Word.eq_high_of_append hshift,
    (hcleared.trans hready).trans hrounds⟩
  rw [hkept r hr]
  simp only [List.mem_cons, List.not_mem_nil, or_false, not_or] at hr
  simp only [ready, cleared, Function.update_of_ne, hr, ne_eq, not_false_eq_true]

/-! ## Words -/

/-- The low character of a word that is not zero is shown. -/
theorem showLow (hup : Up o.cell) (hport : o.general 1 ∉ DeviceReg.ports)
    (hw : o.cell (o.general 1) = w) (hne : w ≠ 0) : ∃ general condition,
    (∀ r ∉ [2, 3, 4], general r = o.general r) ∧ general 2 = w ∧
      Leads { o with pc := 0x252 } { o with
        pc := 0x259
        general
        condition
        shown := o.shown ++ [w.low] } := by
  obtain ⟨-, -, ⟨hldr, hbr, hld, hand, -⟩, hshow, -⟩ := Os.placed_putsp
  have hmask : o.cell 0x206 = 0x00FF := hup.loaded (by decide)
  let loaded : Outline := { o with
    pc := 0x253
    general := Function.update o.general 2 w
    condition := some (.ofValue w) }
  let masked : Outline := { o with
    pc := 0x256
    general := Function.update (Function.update loaded.general 3 0x00FF) 3 (w &&& 0x00FF)
    condition := some (.ofValue (w &&& 0x00FF)) }
  have hloaded : Leads { o with pc := 0x252 } loaded :=
    ldr (o := { o with pc := 0x252 }) (hup.lies hldr) (BitVec.add_zero _) hport hw
  have hpass := pass (o := loaded) (hup.lies hbr) (takes_zero rfl hne)
  have hmasked : loaded.next.Leads masked :=
    (ld (o := loaded.next) (hup.lies hld) (by decide) hmask).trans
      (and (o := (loaded.next.next).put 3 0x00FF) (hup.lies hand) rfl)
  have hshown := display (o := masked) (w := w &&& 0x00FF) hup (hup.code hshow) (by decide) rfl
  rw [Word.low_and_mask] at hshown
  refine ⟨_, _, fun r hr => ?_, rfl, ((hloaded.trans hpass).trans hmasked).trans hshown⟩
  simp only [List.mem_cons, List.not_mem_nil, or_false, not_or] at hr
  simp only [masked, loaded, Function.update_of_ne, hr, ne_eq, not_false_eq_true]

/-- The low character of a word that is not zero is shown, and the high one gets into `R3`. -/
theorem halve (hup : Up o.cell) (hport : o.general 1 ∉ DeviceReg.ports)
    (hw : o.cell (o.general 1) = w) (hne : w ≠ 0) : ∃ general condition,
    (∀ r ∉ [2, 3, 4], general r = o.general r) ∧ general 3 = w.high.setWidth 16 ∧
      Leads { o with pc := 0x252 } { o with
        pc := 0x263
        general
        condition
        shown := o.shown ++ [w.low] } := by
  obtain ⟨general, condition, hkept, rfl, hlow⟩ := showLow hup hport hw hne
  obtain ⟨general', condition', hkept', hthree, hmove⟩ := moveHigh
    (o := { o with general, condition, shown := o.shown ++ [(general 2).low] }) hup
  exact ⟨general', condition', fun r hr => (hkept' r hr).trans (hkept r hr), hthree,
    hlow.trans hmove⟩

/-- The high character of a word is shown, and the pointer goes to the next word. -/
theorem showHigh (hup : Up o.cell) (hthree : o.general 3 = w.high.setWidth 16)
    (hhigh : w.high ≠ 0) : ∃ general condition, (∀ r ∉ [1, 2, 3, 4], general r = o.general r) ∧
      general 1 = o.general 1 + 1 ∧
      Leads { o with pc := 0x263 } { o with
        pc := 0x252
        general
        condition
        shown := o.shown ++ [w.high] } := by
  obtain ⟨-, -, -, -, -, ⟨htest, hbr, -⟩, hshow, ⟨hnext, hloop, -⟩, -⟩ := Os.placed_putsp
  have hne : w.high.setWidth 16 ≠ 0 := mt Word.setWidth_high_eq_zero.1 hhigh
  let tested : Outline := { o with
    pc := 0x264
    general := Function.update o.general 3 (w.high.setWidth 16)
    condition := some (.ofValue (w.high.setWidth 16)) }
  have htested : Leads { o with pc := 0x263 } tested := by
    refine add (o := { o with pc := 0x263 }) (hup.lies htest) ?_
    exact (BitVec.add_zero _).trans hthree
  have hpass := pass (o := tested) (hup.lies hbr) (takes_zero rfl hne)
  have hshown := display (o := tested.next) (w := w.high.setWidth 16) hup (hup.code hshow)
    (by decide) rfl
  rw [Word.setWidth_high] at hshown
  let shown : Outline := { tested with
    pc := 0x268
    general := Function.update tested.general 4 (o.cell DeviceReg.dsr)
    condition := some .negative
    shown := o.shown ++ [w.high] }
  have hadd : shown.Leads (shown.next.put 1 (o.general 1 + 1)) :=
    add (o := shown) (hup.lies hnext) rfl
  have hback := branch (o := shown.next.put 1 (o.general 1 + 1)) (hup.lies hloop)
    (takes_always rfl)
  refine ⟨Function.update shown.general 1 (o.general 1 + 1), _, fun r hr => ?_,
    Function.update_self _ _ _, (((htested.trans hpass).trans hshown).trans hadd).trans hback⟩
  simp only [List.mem_cons, List.not_mem_nil, or_false, not_or] at hr
  simp only [shown, tested, Function.update_of_ne, hr, ne_eq, not_false_eq_true]

theorem endHigh (hup : Up o.cell) (hthree : o.general 3 = 0) :
    Leads { o with pc := 0x263 } { o with pc := 0x26A, condition := some .zero } := by
  obtain ⟨-, -, -, -, -, ⟨htest, hbr, -⟩, -⟩ := Os.placed_putsp
  have hsame : Function.update o.general 3 0 = o.general := by
    rw [← hthree]
    exact Function.update_eq_self 3 o.general
  let tested : Outline := { o with pc := 0x264, condition := some .zero }
  have htested : Leads { o with pc := 0x263 } tested := by
    have hadd := add (o := { o with pc := 0x263 }) (w := 0) (hup.lies htest)
      ((BitVec.add_zero _).trans hthree)
    rwa [put, next, hsame] at hadd
  exact htested.trans (branch (o := tested) (hup.lies hbr) rfl)

/-- A word with a high character is shown, and the pointer goes to the next word. -/
theorem showWord (hup : Up o.cell) (hport : o.general 1 ∉ DeviceReg.ports)
    (hw : o.cell (o.general 1) = w) (hhigh : w.high ≠ 0) : ∃ general condition,
    (∀ r ∉ [1, 2, 3, 4], general r = o.general r) ∧ general 1 = o.general 1 + 1 ∧
      Leads { o with pc := 0x252 } { o with
        pc := 0x252
        general
        condition
        shown := o.shown ++ w.chars } := by
  have hne : w ≠ 0 := by
    rintro rfl
    exact hhigh rfl
  obtain ⟨general, condition, hkept, hthree, hlow⟩ := halve hup hport hw hne
  obtain ⟨general', condition', hkept', hnext, hshow⟩ := showHigh
    (o := { o with general, condition, shown := o.shown ++ [w.low] }) hup hthree hhigh
  have hone : general 1 = o.general 1 := hkept 1 (by decide)
  have hchars : o.shown ++ [w.low] ++ [w.high] = o.shown ++ w.chars :=
    List.append_assoc o.shown [w.low] [w.high]
  rw [hchars] at hshow
  refine ⟨general', condition', fun r hr => ?_, hnext.trans (congrArg (· + 1) hone),
    hlow.trans hshow⟩
  exact (hkept' r hr).trans (hkept r (mt (List.mem_cons_of_mem 1) hr))

/-- A word without a high character ends the string. -/
theorem showLast (hup : Up o.cell) (hport : o.general 1 ∉ DeviceReg.ports)
    (hw : o.cell (o.general 1) = w) (hhigh : w.high = 0) : ∃ general condition,
    (∀ r ∉ [1, 2, 3, 4], general r = o.general r) ∧
      Leads { o with pc := 0x252 } { o with
        pc := 0x26A
        general
        condition
        shown := o.shown ++ if w.low = 0 then [] else [w.low] } := by
  by_cases hzero : w = 0
  · subst hzero
    obtain ⟨-, -, ⟨hldr, hbr, -⟩, -⟩ := Os.placed_putsp
    let loaded : Outline := { o with
      pc := 0x253
      general := Function.update o.general 2 0
      condition := some .zero }
    have hloaded : Leads { o with pc := 0x252 } loaded :=
      ldr (o := { o with pc := 0x252 }) (hup.lies hldr) (BitVec.add_zero _) hport hw
    have hdone := hloaded.trans (branch (o := loaded) (hup.lies hbr) rfl)
    have hnothing : (if Word.low 0 = 0 then [] else [Word.low 0]) = [] := if_pos rfl
    rw [hnothing, List.append_nil]
    refine ⟨loaded.general, _, fun r hr => ?_, hdone⟩
    apply Function.update_of_ne
    rintro rfl
    exact hr (by decide)
  · obtain ⟨general, condition, hkept, hthree, hlow⟩ := halve hup hport hw hzero
    have hend := endHigh (o := { o with general, condition, shown := o.shown ++ [w.low] }) hup
      (hthree.trans (Word.setWidth_high_eq_zero.2 hhigh))
    rw [if_neg fun hlow => hzero (Word.eq_zero_of_chars hhigh hlow)]
    exact ⟨general, _, fun r hr => hkept r (mt (List.mem_cons_of_mem 1) hr), hlow.trans hend⟩

/-- All words of a packed string are shown. -/
theorem showAll (hup : Up o.cell)
    (hvs : Along (fun a w => a ∉ DeviceReg.ports ∧ o.cell a = w) (o.general 1) vs)
    (hends : ∃ w ∈ vs, w.high = 0) : ∃ general condition,
    (∀ r ∉ [1, 2, 3, 4], general r = o.general r) ∧
      Leads { o with pc := 0x252 } { o with
        pc := 0x26A
        general
        condition
        shown := o.shown ++ Os.packed vs } := by
  induction vs generalizing o with
  | nil => simp at hends
  | cons w ws ih =>
      obtain ⟨⟨hport, hw⟩, hws⟩ := hvs
      rw [Os.packed]
      by_cases hhigh : w.high = 0
      · rw [if_pos hhigh]
        exact showLast hup hport hw hhigh
      · rw [if_neg hhigh, ← List.append_assoc]
        obtain ⟨general, condition, hkept, hnext, hword⟩ := showWord hup hport hw hhigh
        have hends : ∃ w ∈ ws, w.high = 0 := by
          obtain ⟨v, hv, hzero⟩ := hends
          rcases List.mem_cons.1 hv with rfl | hv
          · exact absurd hzero hhigh
          · exact ⟨v, hv, hzero⟩
        rw [← hnext] at hws
        obtain ⟨general', condition', hkept', hrest⟩ := ih
          (o := { o with general, condition, shown := o.shown ++ w.chars }) hup hws hends
        exact ⟨general', condition', fun r hr => (hkept' r hr).trans (hkept r hr),
          hword.trans hrest⟩

end Leads

/-! ## The routine -/

theorem returns_putsp (hup : Up o.cell)
    (hvs : Along (fun a w => UserSpace a ∧ o.cell a = w) (o.general 0) vs)
    (hends : ∃ w ∈ vs, w.high = 0) :
    { o with pc := Os.entry .putsp }.Returns .putsp (o.general 0) (Os.packed vs) o.keys := by
  obtain ⟨hsave, ⟨hpoint, -⟩, -, -, -, -, -, -, hrestore⟩ := Os.placed_putsp
  refine returns_of_body hup hsave hrestore (by simp) fun cell hup' hcell => ?_
  let pointed : Outline := { o with
    pc := 0x252
    general := Function.update o.general 1 (o.general 0)
    condition := some (.ofValue (o.general 0))
    cell }
  have hpointed : Leads { o with pc := 0x251, cell } pointed :=
    .add (o := { o with pc := 0x251, cell }) (hup'.lies hpoint) (BitVec.add_zero _)
  have hwords : Along (fun a w => a ∉ DeviceReg.ports ∧ cell a = w) (o.general 0) vs := by
    refine hvs.imp fun a w ha => ?_
    obtain ⟨hspace, rfl⟩ := ha
    exact ⟨hspace.not_mem_ports, hcell a hspace.not_mem_saved⟩
  obtain ⟨general, condition, hkept, hshow⟩ := Leads.showAll (o := pointed) hup' hwords hends
  refine ⟨general, condition, fun r hr => ?_, hpointed.trans hshow⟩
  have hr' : r ∉ [1, 2, 3, 4] := mt (List.mem_cons_of_mem 0) hr
  have hone : r ≠ 1 := fun hone => hr' (List.mem_cons.2 (.inl hone))
  rw [Function.update_eq_self]
  exact (hkept r hr').trans (Function.update_of_ne hone _ _)

end Outline

namespace Machine

variable {m : Machine} {vs : List Word}

/-- A trap into `PUTSP` is served, from every state in which the operating system is in memory, the
display is ready, and one of the words at `R0` has no high character. The characters before the
first zero one are shown, and no others, exactly if no word but the last one of the string has a
zero low character. -/
theorem packed_served (hos : Os.InMemory m.store.read) (hready : m.store.isReady DeviceReg.dsr)
    (hpc : UserSpace (m.reg .pc))
    (htrap : (m.store.read (m.reg .pc)).decode.instr = .trap Service.putsp.vector)
    (hvs : Along (fun a w => UserSpace a ∧ m.store.read a = w) (m.reg (.general 0)) vs)
    (hends : ∃ w ∈ vs, w.high = 0) :
    (∃ n, m.Served .putsp (m.reg (.general 0)) (Os.packed vs) m.keys (m.steps n)) ∧
      (Os.packed vs = (vs.flatMap Word.chars).takeWhile (· ≠ 0) ↔
        ∀ w ∈ vs.takeWhile (·.high ≠ 0), w.low ≠ 0) := by
  have hup := up_outline hos hready
  have hwords : Along (fun a w => UserSpace a ∧ m.outline.cell a = w) (m.reg (.general 0)) vs := by
    refine hvs.imp fun a w ha => ?_
    obtain ⟨hspace, rfl⟩ := ha
    exact ⟨hspace, cell_of_not_mem hspace.not_mem_ports⟩
  have hreturns : (m.outline.next.call (Os.entry .putsp)).Returns .putsp (m.reg (.general 0))
      (Os.packed vs) m.keys :=
    Outline.returns_putsp (o := m.outline.next.call (Os.entry .putsp)) hup hwords hends
  exact ⟨served_of_returns hos hready hpc htrap hreturns, Os.packed_eq_iff⟩

/-- Right after power-on, a program shows five characters, of which the third is zero. -/
theorem packed_served_five :
    let poke : Store → Store := fun s => ((((s.write 0x3000 0xF024).write 0x4000 0x6948).write
      0x4001 0x4100).write 0x4002 0x0021).setReg (.general 0) 0x4000
    let m := (new {} Os.standard).onStore poke
    Os.InMemory m.store.read ∧ m.store.isReady DeviceReg.dsr = true ∧ UserSpace (m.reg .pc) ∧
      (m.store.read (m.reg .pc)).decode.instr = .trap Service.putsp.vector ∧
      Along (fun a w => UserSpace a ∧ m.store.read a = w) (m.reg (.general 0))
        [0x6948, 0x4100, 0x0021] ∧
      ∃ n, m.Served .putsp (m.reg (.general 0)) [0x48, 0x69, 0x00, 0x41, 0x21] m.keys
        (m.steps n) := by
  intro poke m
  have hread : ∀ a, m.store.read a = if 0x4002 = a then 0x0021 else if 0x4001 = a then 0x4100
      else if 0x4000 = a then 0x6948 else if 0x3000 = a then 0xF024
      else (new {} Os.standard).store.read a := by
    intro a
    simp only [m, poke, onStore, Store.read_setReg, Store.read_write]
  have hos : Os.InMemory m.store.read := by
    have hnew : Os.InMemory (new {} Os.standard).store.read := Os.inMemory_new
    refine hnew.congr fun a hne => ?_
    rw [hread, if_neg (hne _ (by decide)), if_neg (hne _ (by decide)), if_neg (hne _ (by decide)),
      if_neg (hne _ (by decide))]
  have hready : m.store.isReady DeviceReg.dsr = true := by
    rw [Store.isReady, hread, if_neg (by decide), if_neg (by decide), if_neg (by decide),
      if_neg (by decide)]
    exact isReady_powerOn
  have hreg : ∀ s, (poke s).reg .pc = s.reg .pc ∧ (poke s).reg (.general 0) = 0x4000 := fun s =>
    ⟨rfl, by simp [poke]⟩
  have hpc : m.reg .pc = 0x3000 := (hreg _).1.trans pc_powerOn
  have hzero : m.reg (.general 0) = 0x4000 := (hreg _).2
  have hspace : UserSpace (m.reg .pc) := by
    rw [hpc]
    decide
  have htrap : (m.store.read (m.reg .pc)).decode.instr = .trap Service.putsp.vector := by
    rw [hpc, hread]
    rfl
  have hvs : Along (fun a w => UserSpace a ∧ m.store.read a = w) (m.reg (.general 0))
      [0x6948, 0x4100, 0x0021] := by
    rw [hzero]
    exact ⟨⟨by decide, hread _⟩, ⟨by decide, hread _⟩, ⟨by decide, hread _⟩, trivial⟩
  exact ⟨hos, hready, hspace, htrap, hvs, (packed_served hos hready hspace htrap hvs
    ⟨0x0021, by decide, by decide⟩).1⟩

/-- At a word with a zero low character the string should end, but that character is shown. -/
theorem packed_past_zero :
    let m := (new {} ⟨0, Os.image, .empty⟩).onStore fun s =>
      ((s.write 0x3000 0xF024).write 0x4000 0x4100).setReg (.general 0) 0x4000
    Os.InMemory m.store.read ∧ m.store.isReady DeviceReg.dsr = true ∧ UserSpace (m.reg .pc) ∧
      (m.store.read (m.reg .pc)).decode.instr = .trap Service.putsp.vector ∧
      Along (fun a w => UserSpace a ∧ m.store.read a = w) (m.reg (.general 0)) [0x4100, 0x0000] ∧
      0 ∈ [0x4100, 0x0000].flatMap Word.chars ∧
      ∀ n, ¬ ((m.steps n).reg .pc = m.reg .pc + 1 ∧
        (m.steps n).shown =
          m.shown ++ ([0x4100, 0x0000].flatMap Word.chars).takeWhile (· ≠ 0)) := by
  intro m
  have hread : ∀ a, m.store.read a = if 0x4000 = a then 0x4100 else if 0x3000 = a then 0xF024
      else (new {} ⟨0, Os.image, .empty⟩).store.read a := by
    intro a
    simp only [m, onStore, Store.read_setReg, Store.read_write]
  have hos : Os.InMemory m.store.read := by
    have hnew : Os.InMemory (new {} ⟨0, Os.image, .empty⟩).store.read :=
      Os.inMemory_of_words rfl rfl
    refine hnew.congr fun a hne => ?_
    rw [hread, if_neg (hne _ (by decide)), if_neg (hne _ (by decide))]
  -- The zero character is shown in the fourteenth step, inside the routine.
  have hrun : m.store.isReady DeviceReg.dsr = true ∧ UserSpace (m.reg .pc) ∧
      (m.store.read (m.reg .pc)).decode.instr = .trap Service.putsp.vector ∧
      Along (fun a w => UserSpace a ∧ m.store.read a = w) (m.reg (.general 0)) [0x4100, 0x0000] ∧
      (∀ k < 14, (m.steps k).reg .pc ≠ m.reg .pc + 1) ∧ m.shown = [] ∧
      (m.steps 14).shown = [0] := by
    decide +kernel
  obtain ⟨hready, hspace, htrap, hvs, hinside, hbefore, hzero⟩ := hrun
  refine ⟨hos, hready, hspace, htrap, hvs, by decide, fun n hn => ?_⟩
  obtain ⟨hpc, hshown⟩ := hn
  rcases Nat.lt_or_ge n 14 with hlt | hge
  · exact hinside n hlt hpc
  · have hnothing : ([0x4100, 0x0000].flatMap Word.chars).takeWhile (· ≠ 0) = [] := by decide
    have hprefix := shown_steps_prefix hready hge
    rw [hshown, hbefore, hnothing, hzero] at hprefix
    exact absurd hprefix (by decide)

end Machine

end Lc3
