import Mathlib.Data.List.Basic
import Lc3.Proofs.Replay
import Lc3.Switchboard

/-!
# What every subscriber gets

Main statement: a subscriber that holds its mailbox gets every event since it came, once and in
order, whatever the others do; right after an event those are counted that hold theirs; and a
switchboard does as an observer does, whatever its channels are, as long as they are unbounded, what
comes in first goes out first, and sending fails when the receiver was dropped.
-/

namespace Lc3

/-- The mailbox after its owner took out the oldest event. -/
def Mailbox.shifted : Mailbox → Mailbox
  | .held waiting => .held waiting.toList.tail.toArray
  | box => box

namespace Mailbox

variable {e : Event} {box : Mailbox}

theorem waiting?_deliver : (box.deliver e).waiting? = box.waiting?.map (· ++ [e]) := by
  cases box <;> simp [deliver, waiting?]

theorem waiting?_release (box : Mailbox) : box.release.waiting? = none := by cases box <;> rfl

theorem waiting?_shifted (box : Mailbox) : box.shifted.waiting? = box.waiting?.map List.tail := by
  cases box <;> simp [shifted, waiting?]

theorem waiting?_emptied (box : Mailbox) :
    box.emptied.waiting? = box.waiting?.map fun _ => [] := by cases box <;> rfl

theorem isListed_deliver : (box.deliver e).isListed = box.waiting?.isSome := by cases box <;> rfl

theorem isListed_release (box : Mailbox) : box.release.isListed = box.isListed := by
  cases box <;> rfl

theorem isListed_shifted (box : Mailbox) : box.shifted.isListed = box.isListed := by
  cases box <;> rfl

theorem isListed_emptied (box : Mailbox) : box.emptied.isListed = box.isListed := by
  cases box <;> rfl

theorem isListed_of_waiting {ws : List Event} (h : box.waiting? = some ws) :
    box.isListed = true := by
  cases box with
  | held => rfl
  | abandoned | closed => cases h

end Mailbox

namespace Turn

/-- The event that is sent. -/
def event? : Turn → Option Event
  | .emit e => some e
  | _ => none

/-- A turn that is not one of another subscriber. -/
def concerns (sub : Nat) : Turn → Bool
  | .subscribe | .emit _ => true
  | .drop k | .receive k | .drain k => k = sub

/-- What a subscriber takes out, of what waits for it. -/
def taken (sub : Nat) (waiting : Option (List Event)) : Turn → List Event
  | .receive k => if k = sub then (waiting.getD []).take 1 else []
  | .drain k => if k = sub then waiting.getD [] else []
  | _ => []

/-- What waits for a subscriber afterwards, if the next one that comes has the number `next`. -/
def remaining (next sub : Nat) (waiting : Option (List Event)) : Turn → Option (List Event)
  | .subscribe => if sub = next then some [] else waiting
  | .emit e => waiting.map (· ++ [e])
  | .drop k => if k = sub then none else waiting
  | .receive k => if k = sub then waiting.map List.tail else waiting
  | .drain k => if k = sub then waiting.map fun _ => [] else waiting

/-- The events that are sent, in order. -/
def sent (ts : List Turn) : List Event := ts.flatMap fun t => t.event?.toList

/-- The turns since the subscriber `sub` came. -/
def Since (ts : List Turn) (sub : Nat) (after : List Turn) : Prop :=
  ∃ before, ts = before ++ .subscribe :: after ∧ before.count .subscribe = sub

/-- The subscriber came and did not let go of its mailbox since. -/
def Live (ts : List Turn) (sub : Nat) : Prop := ∃ after, Since ts sub after ∧ .drop sub ∉ after

end Turn

namespace Observer

/-- A subscriber takes the oldest event out of its mailbox. -/
def receive (o : Observer) (sub : Nat) : Observer := ⟨o.boxes.modify sub Mailbox.shifted⟩

/-- The observer after a turn. -/
def turn (o : Observer) : Turn → Observer
  | .subscribe => o.subscribe
  | .emit e => o.emit e
  | .drop sub => o.drop sub
  | .receive sub => o.receive sub
  | .drain sub => o.drain sub

/-- The observer after some turns. -/
def turns (o : Observer) (ts : List Turn) : Observer := ts.foldl turn o

/-- What a subscriber takes out, turn after turn. -/
def received (sub : Nat) (o : Observer) : List Turn → List Event
  | [] => []
  | t :: ts => t.taken sub (o.waiting? sub) ++ received sub (o.turn t) ts

/-- The numbers of the subscribers that are not crossed off. -/
def listed (o : Observer) : List Nat :=
  (List.range o.next).filter fun sub => o.boxes[sub]?.any Mailbox.isListed

variable {o o' : Observer} {t : Turn} {ts ts' after more : List Turn} {e : Event}
  {sub k : Nat} {ws : List Event}

/-! ## One turn -/

theorem turns_append : o.turns (ts ++ ts') = (o.turns ts).turns ts' := List.foldl_append

theorem count_subscribe_cons :
    (t :: ts).count .subscribe = [t].count .subscribe + ts.count .subscribe := by
  rw [← List.count_append]
  rfl

theorem next_turn : (o.turn t).next = o.next + [t].count .subscribe := by
  cases t <;> simp [turn, next, subscribe, emit, drop, receive, drain]

theorem lt_next (h : o.waiting? sub = some ws) : sub < o.next := by
  obtain ⟨box, hbox, -⟩ := exists_held h
  exact (List.getElem?_eq_some_iff.1 hbox).1

theorem waiting?_modify {f : Mailbox → Mailbox} {g : Option (List Event) → Option (List Event)}
    (hf : ∀ box, (f box).waiting? = g box.waiting?) (hg : g none = none) :
    waiting? ⟨o.boxes.modify k f⟩ sub = if k = sub then g (o.waiting? sub) else o.waiting? sub := by
  rw [waiting?, waiting?, List.getElem?_modify]
  cases o.boxes[sub]? with
  | none => simp [hg]
  | some box =>
      by_cases h : k = sub
      · simp [h, hf]
      · simp [h]

/-- What waits for a subscriber after a turn depends only on what waited for it before. -/
theorem waiting?_turn : (o.turn t).waiting? sub = t.remaining o.next sub (o.waiting? sub) := by
  cases t with
  | subscribe =>
      rw [turn, waiting?, subscribe, Turn.remaining, next, List.getElem?_append]
      rcases Nat.lt_trichotomy sub o.boxes.length with h | h | h
      · simp [h, Nat.ne_of_lt h, waiting?]
      · simp [h, Mailbox.waiting?]
      · have hnew : sub - o.boxes.length ≠ 0 := by omega
        simp [Nat.not_lt_of_gt h, Nat.ne_of_gt h, waiting?, hnew]
  | emit e =>
      rw [turn, waiting?, emit, List.getElem?_map, waiting?, Turn.remaining]
      cases o.boxes[sub]? with
      | none => rfl
      | some box => exact Mailbox.waiting?_deliver
  | drop k => exact waiting?_modify (g := fun _ => none) Mailbox.waiting?_release rfl
  | receive k => exact waiting?_modify Mailbox.waiting?_shifted rfl
  | drain k => exact waiting?_modify Mailbox.waiting?_emptied rfl

/-! ## Many turns -/

theorem next_turns : (o.turns ts).next = o.next + ts.count .subscribe := by
  induction ts generalizing o with
  | nil => rfl
  | cons t ts ih =>
      rw [turns, List.foldl_cons, ← turns, ih, next_turn, Nat.add_assoc, ← count_subscribe_cons]

theorem received_append :
    received sub o (ts ++ ts') = received sub o ts ++ received sub (o.turns ts) ts' := by
  induction ts generalizing o with
  | nil => rfl
  | cons t ts ih =>
      rw [List.cons_append, received, received, ih, List.append_assoc]
      rfl

/-- What a subscriber takes out and what is left is what waited and what came. -/
theorem taken_append_remaining (h : o.waiting? sub = some ws) (hd : t ≠ .drop sub) :
    ∃ ws', (o.turn t).waiting? sub = some ws' ∧
      t.taken sub (some ws) ++ ws' = ws ++ t.event?.toList := by
  rw [waiting?_turn, h]
  cases t with
  | subscribe =>
      have hne : sub ≠ o.next := Nat.ne_of_lt (lt_next h)
      exact ⟨ws, by simp [Turn.remaining, hne], by simp [Turn.taken, Turn.event?]⟩
  | emit e => exact ⟨ws ++ [e], rfl, rfl⟩
  | drop k =>
      have hne : k ≠ sub := fun hk => hd (by rw [hk])
      exact ⟨ws, by simp [Turn.remaining, hne], by simp [Turn.taken, Turn.event?]⟩
  | receive k =>
      by_cases hk : k = sub
      · refine ⟨ws.tail, by simp [Turn.remaining, hk], ?_⟩
        cases ws <;> simp [Turn.taken, Turn.event?, hk]
      · exact ⟨ws, by simp [Turn.remaining, hk], by simp [Turn.taken, Turn.event?, hk]⟩
  | drain k =>
      by_cases hk : k = sub
      · exact ⟨[], by simp [Turn.remaining, hk], by simp [Turn.taken, Turn.event?, hk]⟩
      · exact ⟨ws, by simp [Turn.remaining, hk], by simp [Turn.taken, Turn.event?, hk]⟩

theorem received_append_waiting (h : o.waiting? sub = some ws) (hd : .drop sub ∉ ts) :
    ∃ ws', (o.turns ts).waiting? sub = some ws' ∧
      received sub o ts ++ ws' = ws ++ Turn.sent ts := by
  induction ts generalizing o ws with
  | nil => exact ⟨ws, h, by simp [received, Turn.sent]⟩
  | cons t ts ih =>
      rw [List.mem_cons, not_or] at hd
      obtain ⟨mid, hmid, htake⟩ := taken_append_remaining h (Ne.symm hd.1)
      obtain ⟨ws', hws', hrest⟩ := ih hmid hd.2
      refine ⟨ws', hws', ?_⟩
      rw [received, h, List.append_assoc, hrest, ← List.append_assoc, htake, List.append_assoc]
      rfl

/-- Nothing is taken out by a subscriber that has not come yet. -/
theorem received_of_le (h : o.next + ts.count .subscribe ≤ sub) : received sub o ts = [] := by
  induction ts generalizing o with
  | nil => rfl
  | cons t ts ih =>
      rw [count_subscribe_cons] at h
      have hnone : o.waiting? sub = none := by
        rw [Option.eq_none_iff_forall_ne_some]
        intro ws hws
        have := lt_next hws
        omega
      rw [received, hnone, ih (by rw [next_turn]; omega)]
      cases t <;> simp [Turn.taken]

/-! ## Who is there -/

theorem waiting?_eq_none (hnone : o.waiting? sub = none) (hlt : sub < o.next) :
    (o.turns ts).waiting? sub = none := by
  induction ts generalizing o with
  | nil => exact hnone
  | cons t ts ih =>
      refine ih ?_ (by rw [next_turn]; omega)
      rw [waiting?_turn, hnone]
      cases t <;> simp [Turn.remaining, Nat.ne_of_lt hlt]

theorem exists_since (h : sub < ts.count .subscribe) : ∃ after, Turn.Since ts sub after := by
  induction ts generalizing sub with
  | nil => simp at h
  | cons t ts ih =>
      by_cases ht : t = .subscribe
      · subst ht
        cases sub with
        | zero => exact ⟨ts, [], rfl, rfl⟩
        | succ sub =>
            rw [List.count_cons_self] at h
            obtain ⟨after, before, rfl, hcount⟩ := ih (Nat.lt_of_succ_lt_succ h)
            exact ⟨after, .subscribe :: before, rfl, by rw [List.count_cons_self, hcount]⟩
      · rw [List.count_cons_of_ne ht] at h
        obtain ⟨after, before, rfl, hcount⟩ := ih h
        exact ⟨after, t :: before, rfl, by rw [List.count_cons_of_ne ht, hcount]⟩

theorem exists_of_since (h : Turn.Since ts sub after) :
    ∃ o : Observer, o.next = sub ∧ empty.turns ts = o.subscribe.turns after ∧
      received sub empty ts = received sub o.subscribe after := by
  obtain ⟨before, rfl, hcount⟩ := h
  have hnext : (empty.turns before).next = sub := by
    rw [next_turns, hcount]
    exact Nat.zero_add sub
  refine ⟨empty.turns before, hnext, turns_append, ?_⟩
  rw [received_append, received_of_le (by rw [← hnext, next_turns])]
  rfl

theorem received_append_waiting_of_since (h : Turn.Since ts sub after) (hd : .drop sub ∉ after) :
    ∃ ws, (empty.turns ts).waiting? sub = some ws ∧
      received sub empty ts ++ ws = Turn.sent after := by
  obtain ⟨o, rfl, hturns, hreceived⟩ := exists_of_since h
  rw [hturns, hreceived]
  exact received_append_waiting waiting?_next hd

/-- Events wait for the subscribers that are there, and for nobody else. -/
theorem isSome_waiting?_iff : ((empty.turns ts).waiting? sub).isSome = true ↔ Turn.Live ts sub := by
  constructor
  · intro h
    obtain ⟨ws, hws⟩ := Option.isSome_iff_exists.1 h
    have hlt := lt_next hws
    rw [next_turns, show empty.next = 0 from rfl, Nat.zero_add] at hlt
    obtain ⟨after, hsince⟩ := exists_since hlt
    refine ⟨after, hsince, fun hd => ?_⟩
    obtain ⟨o, rfl, hturns, -⟩ := exists_of_since hsince
    obtain ⟨mid, rest, rfl⟩ := List.append_of_mem hd
    let dropped := (o.subscribe.turns mid).turn (.drop o.next)
    have hgone : dropped.waiting? o.next = none := by
      rw [waiting?_turn]
      exact if_pos rfl
    have hin : o.next < dropped.next := by
      rw [next_turn, next_turns, show o.subscribe = o.turn .subscribe from rfl, next_turn]
      simp
      omega
    have hnone : (dropped.turns rest).waiting? o.next = none := waiting?_eq_none hgone hin
    rw [hturns, turns_append] at hws
    cases hnone.symm.trans hws
  · rintro ⟨after, hsince, hd⟩
    obtain ⟨ws, hws, -⟩ := received_append_waiting_of_since hsince hd
    rw [hws]
    rfl

/-! ## Turns of the others -/

/-- What a subscriber takes out and what waits for it, if the turns of the others are left out. -/
theorem turns_filter (hnext : o.next = o'.next) (hw : o.waiting? sub = o'.waiting? sub) :
    received sub o ts = received sub o' (ts.filter (Turn.concerns sub)) ∧
      (o.turns ts).waiting? sub = (o'.turns (ts.filter (Turn.concerns sub))).waiting? sub := by
  induction ts generalizing o o' with
  | nil => exact ⟨rfl, hw⟩
  | cons t ts ih =>
      cases hc : t.concerns sub with
      | true =>
          rw [List.filter_cons_of_pos hc, received, received, hw]
          have hnext' : (o.turn t).next = (o'.turn t).next := by rw [next_turn, next_turn, hnext]
          have hw' : (o.turn t).waiting? sub = (o'.turn t).waiting? sub := by
            rw [waiting?_turn, waiting?_turn, hnext, hw]
          obtain ⟨hreceived, hwaiting⟩ := ih hnext' hw'
          exact ⟨by rw [hreceived], hwaiting⟩
      | false =>
          have hnot : t ≠ .subscribe := by
            rintro rfl
            cases hc
          have htaken : t.taken sub (o.waiting? sub) = [] := by
            cases t <;> simp_all [Turn.taken, Turn.concerns]
          have hw' : (o.turn t).waiting? sub = o'.waiting? sub := by
            rw [waiting?_turn, ← hw]
            cases t <;> simp_all [Turn.remaining, Turn.concerns]
          have hnext' : (o.turn t).next = o'.next := by
            rw [next_turn, hnext, List.count_cons_of_ne hnot]
            rfl
          obtain ⟨hreceived, hwaiting⟩ := ih hnext' hw'
          rw [List.filter_cons_of_neg (by simp [hc]), received, htaken]
          exact ⟨hreceived, hwaiting⟩

/-! ## Who is counted -/

theorem length_listed : o.listed.length = o.count := by
  have hboxes : (List.range o.next).map (o.boxes[·]?) = o.boxes.map some :=
    List.ext_getElem (by simp [next]) (by simp)
  calc
    o.listed.length
      = ((List.range o.next).map (o.boxes[·]?)).countP (Option.any Mailbox.isListed) := by
        rw [listed, ← List.countP_eq_length_filter, List.countP_map]
        rfl
    _ = o.count := by
        rw [hboxes, List.countP_map]
        rfl

theorem ordered_listed : o.listed.Pairwise (· < ·) := List.pairwise_lt_range.filter _

theorem mem_listed_of_waiting (h : o.waiting? sub = some ws) : sub ∈ o.listed := by
  obtain ⟨box, hbox, hws⟩ := Option.bind_eq_some_iff.1 h
  simp [listed, lt_next h, hbox, Mailbox.isListed_of_waiting hws]

theorem listed_subscribe : o.subscribe.listed = o.listed ++ [o.next] := by
  have hnext : o.subscribe.next = o.next + 1 := next_turn (t := .subscribe)
  rw [listed, hnext, List.range_succ, List.filter_append, listed]
  congr 1
  · refine List.filter_congr fun k hk => ?_
    rw [subscribe, List.getElem?_append_left (List.mem_range.1 hk)]
  · simp [subscribe, next, Mailbox.isListed]

theorem listed_modify {f : Mailbox → Mailbox} (hf : ∀ box, (f box).isListed = box.isListed) :
    listed ⟨o.boxes.modify sub f⟩ = o.listed := by
  have hnext : next ⟨o.boxes.modify sub f⟩ = o.next := by simp [next]
  rw [listed, hnext, listed]
  refine List.filter_congr fun k _ => ?_
  rw [List.getElem?_modify]
  cases o.boxes[k]? with
  | none => rfl
  | some box => by_cases h : sub = k <;> simp [h, hf]

/-- An event crosses off those for whom nothing can wait any more. -/
theorem listed_emit : (o.emit e).listed = o.listed.filter fun k => (o.waiting? k).isSome := by
  have hnext : (o.emit e).next = o.next := next_turn (t := .emit e)
  rw [listed, hnext, listed, List.filter_filter]
  refine List.filter_congr fun k _ => ?_
  rw [emit, List.getElem?_map, waiting?]
  cases o.boxes[k]? with
  | none => rfl
  | some box =>
      cases hw : box.waiting? with
      | none => simp [Mailbox.isListed_deliver, hw]
      | some ws => simp [Mailbox.isListed_deliver, hw, Mailbox.isListed_of_waiting hw]

theorem mem_listed_emit : sub ∈ (o.emit e).listed ↔ (o.waiting? sub).isSome = true := by
  rw [listed_emit, List.mem_filter, and_iff_right_iff_imp]
  intro h
  obtain ⟨ws, hws⟩ := Option.isSome_iff_exists.1 h
  exact mem_listed_of_waiting hws

theorem count_turn (h : t.event? = none) : (o.turn t).count = o.count + [t].count .subscribe := by
  rw [← length_listed, ← length_listed]
  cases t with
  | subscribe => simp [turn, listed_subscribe]
  | emit e => cases h
  | drop k => simp [turn, drop, listed_modify Mailbox.isListed_release]
  | receive k => simp [turn, receive, listed_modify Mailbox.isListed_shifted]
  | drain k => simp [turn, drain, listed_modify Mailbox.isListed_emptied]

/-- Until the next event the count grows with the subscribers that come. -/
theorem count_turns (h : Turn.sent more = []) :
    (o.turns more).count = o.count + more.count .subscribe := by
  induction more generalizing o with
  | nil => rfl
  | cons t more ih =>
      obtain ⟨hevent, hrest⟩ := List.append_eq_nil_iff.1 h
      have hturn := count_turn (o := o) (Option.toList_eq_nil_iff.1 hevent)
      rw [turns, List.foldl_cons, ← turns, ih hrest, hturn, Nat.add_assoc, ← count_subscribe_cons]

end Observer

namespace Switchboard

variable {M : Medium} {b : Switchboard M} {o : Observer} {e : Event} {sub k : Nat}
  {subs : List Nat} {c : M.Channel} {channels channels' : List M.Channel} {ws : List Event}
  {ts : List Turn} {t : Turn} {w : M.Channel → Option (List Event)}

/-- The events that wait for a subscriber, if `w` tells which ones wait in a channel. -/
def waiting? (w : M.Channel → Option (List Event)) (b : Switchboard M) (sub : Nat) :
    Option (List Event) := b.channels[sub]?.bind w

/-! ## Sending along the list -/

theorem exists_of_send (hM : M.Laws w) (h : send e sub channels = some channels') :
    ∃ c ws c', channels[sub]? = some c ∧ w c = some ws ∧ w c' = some (ws ++ [e]) ∧
      channels' = channels.set sub c' := by
  obtain ⟨c, hc, h⟩ := Option.bind_eq_some_iff.1 h
  obtain ⟨c', hsend, rfl⟩ := Option.map_eq_some_iff.1 h
  cases hw : w c with
  | none => cases hsend.symm.trans (hM.failed e hw)
  | some ws =>
      obtain ⟨c'', hsend', hw'⟩ := hM.sent e hw
      cases hsend.symm.trans hsend'
      exact ⟨c, ws, c', hc, hw, hw', rfl⟩

theorem send_eq_none (hM : M.Laws w) :
    send e sub channels = none ↔ channels[sub]?.bind w = none := by
  rw [send]
  cases channels[sub]? with
  | none => simp
  | some c =>
      rw [Option.bind_some, Option.bind_some, Option.map_eq_none_iff]
      refine ⟨fun h => ?_, hM.failed e⟩
      rw [Option.eq_none_iff_forall_ne_some]
      intro ws hw
      obtain ⟨c', hsend, -⟩ := hM.sent e hw
      cases hsend.symm.trans h

theorem bind_send (hM : M.Laws w) (h : send e sub channels = some channels') :
    channels'[k]?.bind w =
      if sub = k then (channels[k]?.bind w).map (· ++ [e]) else channels[k]?.bind w := by
  obtain ⟨c, ws, c', hc, hw, hw', rfl⟩ := exists_of_send hM h
  by_cases hk : sub = k
  · subst hk
    obtain ⟨hlt, -⟩ := List.getElem?_eq_some_iff.1 hc
    simp [List.getElem?_set_self hlt, hc, hw, hw']
  · rw [List.getElem?_set_ne hk, if_neg hk]

/-- Sending to one subscriber does not change who has a receiver. -/
theorem isSome_send (hM : M.Laws w) (h : send e sub channels = some channels') :
    (channels'[k]?.bind w).isSome = (channels[k]?.bind w).isSome := by
  rw [bind_send hM h]
  split
  · rw [Option.isSome_map]
  · rfl

/-- Those stay to whom an event can be sent, whoever does not stay before them. -/
theorem retain_fst (hM : M.Laws w) :
    (retain e subs channels).1 = subs.filter fun k => (channels[k]?.bind w).isSome := by
  induction subs generalizing channels with
  | nil => rfl
  | cons sub subs ih =>
      rw [retain]
      cases h : send e sub channels with
      | some channels' =>
          have hsome : (channels[sub]?.bind w).isSome = true := by
            obtain ⟨c, ws, -, hc, hw, -⟩ := exists_of_send hM h
            simp [hc, hw]
          simp only [ih, isSome_send hM h, List.filter_cons, hsome, ↓reduceIte]
      | none =>
          have hnone := (send_eq_none hM).1 h
          simp only [ih, List.filter_cons, hnone, Option.isSome_none, Bool.false_eq_true,
            ↓reduceIte]

/-- Each of the subscribers gets the event once. -/
theorem retain_snd (hM : M.Laws w) (hnodup : subs.Nodup) :
    (retain e subs channels).2[k]?.bind w =
      if k ∈ subs then (channels[k]?.bind w).map (· ++ [e]) else channels[k]?.bind w := by
  induction subs generalizing channels with
  | nil => rfl
  | cons sub subs ih =>
      obtain ⟨hnot, hnodup⟩ := List.nodup_cons.1 hnodup
      rw [retain]
      cases h : send e sub channels with
      | some channels' =>
          simp only [ih hnodup, bind_send hM h]
          by_cases hk : sub = k
          · subst hk
            simp [hnot]
          · simp [hk, Ne.symm hk]
      | none =>
          simp only [ih hnodup]
          by_cases hk : sub = k
          · subst hk
            simp [hnot, (send_eq_none hM).1 h]
          · simp [Ne.symm hk]

theorem length_retain : (retain e subs channels).2.length = channels.length := by
  induction subs generalizing channels with
  | nil => rfl
  | cons sub subs ih =>
      rw [retain]
      cases h : send e sub channels with
      | some channels' =>
          obtain ⟨c, -, h⟩ := Option.bind_eq_some_iff.1 h
          obtain ⟨c', -, rfl⟩ := Option.map_eq_some_iff.1 h
          simp only [ih, List.length_set]
      | none => exact ih

theorem retain_filter (hM : M.Laws w) (h : channels[k]?.bind w = none) :
    retain e (subs.filter fun sub => sub ≠ k) channels = retain e subs channels := by
  induction subs generalizing channels with
  | nil => rfl
  | cons sub subs ih =>
      by_cases hk : sub = k
      · subst hk
        rw [List.filter_cons_of_neg (by simp), ih h, retain, (send_eq_none hM).2 h]
      · rw [List.filter_cons_of_pos (by simp [hk]), retain, retain]
        cases hs : send e sub channels with
        | some channels' =>
            have hgone : channels'[k]?.bind w = none := by rw [bind_send hM hs, if_neg hk, h]
            simp only [ih hgone]
        | none => exact ih h

/-- It makes no difference to an event whether somebody is listed who dropped the receiver. -/
theorem emit_without (hM : M.Laws w) (h : b.waiting? w sub = none) :
    (b.without sub).emit e = b.emit e := by
  simp only [emit, without, retain_filter hM h]

/-! ## Channels and mailboxes -/

/-- In the channels waits what waits in the mailboxes, and the senders are those of the subscribers
that are not crossed off. -/
structure Agrees (w : M.Channel → Option (List Event)) (b : Switchboard M) (o : Observer) :
    Prop where
  senders : b.senders = o.listed
  length : b.channels.length = o.next
  waiting : ∀ sub, b.waiting? w sub = o.waiting? sub

theorem Agrees.empty : Agrees w .empty .empty := ⟨rfl, rfl, fun _ => rfl⟩

theorem Agrees.onChannel {f : Mailbox → Mailbox} {g : M.Channel → M.Channel}
    {r : Option (List Event) → Option (List Event)} (h : Agrees w b o)
    (hf : ∀ box, (f box).waiting? = r box.waiting?) (hg : ∀ c, w (g c) = r (w c))
    (hr : r none = none) (hlisted : ∀ box, (f box).isListed = box.isListed) :
    Agrees w (b.onChannel sub g) ⟨o.boxes.modify sub f⟩ where
  senders := by rw [Observer.listed_modify hlisted, ← h.senders]; rfl
  length := by simp [Switchboard.onChannel, h.length, Observer.next]
  waiting k := by
    rw [Observer.waiting?_modify hf hr, ← h.waiting, waiting?, waiting?, Switchboard.onChannel,
      List.getElem?_modify]
    by_cases hk : sub = k
    · cases b.channels[k]? with
      | none => simp [hk, hr]
      | some c => simp [hk, hg]
    · simp [hk]

theorem Agrees.emit (hM : M.Laws w) (h : Agrees w b o) : Agrees w (b.emit e) (o.emit e) where
  senders := by
    have hsome (k : Nat) : (b.channels[k]?.bind w).isSome = (o.waiting? k).isSome :=
      congrArg Option.isSome (h.waiting k)
    simp only [Switchboard.emit, retain_fst hM, Observer.listed_emit, hsome, h.senders]
  length := by
    rw [Switchboard.emit, length_retain, h.length, Observer.next, Observer.next, Observer.emit,
      List.length_map]
  waiting k := by
    have hnodup : o.listed.Nodup := Observer.ordered_listed.imp Nat.ne_of_lt
    have hemit : (o.emit e).waiting? k = (o.waiting? k).map (· ++ [e]) :=
      Observer.waiting?_turn (o := o) (t := .emit e)
    have hwaiting : b.channels[k]?.bind w = o.waiting? k := h.waiting k
    rw [waiting?, Switchboard.emit, h.senders, retain_snd hM hnodup, hwaiting, hemit]
    split
    · rfl
    · rename_i hk
      cases hw : o.waiting? k with
      | none => rfl
      | some ws => exact absurd (Observer.mem_listed_of_waiting hw) hk

theorem Agrees.turn (hM : M.Laws w) (h : Agrees w b o) (t : Turn) :
    Agrees w (b.turn t) (o.turn t) := by
  cases t with
  | subscribe =>
      refine ⟨?_, ?_, fun k => ?_⟩
      · rw [Observer.turn, Observer.listed_subscribe, ← h.senders, Switchboard.turn,
          Switchboard.subscribe, h.length]
      · simp [Observer.turn, Observer.subscribe, Switchboard.turn, Switchboard.subscribe,
          h.length, Observer.next]
      · rw [Observer.waiting?_turn, Turn.remaining, ← h.waiting, waiting?, waiting?,
          Switchboard.turn, Switchboard.subscribe, ← h.length, List.getElem?_append]
        rcases Nat.lt_trichotomy k b.channels.length with hk | rfl | hk
        · simp [hk, Nat.ne_of_lt hk]
        · simp [hM.fresh]
        · have hnew : k - b.channels.length ≠ 0 := by omega
          simp [Nat.not_lt_of_gt hk, Nat.ne_of_gt hk, hnew]
  | emit e => exact h.emit hM
  | drop sub =>
      exact h.onChannel (r := fun _ => none) Mailbox.waiting?_release hM.dropped rfl
        Mailbox.isListed_release
  | receive sub =>
      refine h.onChannel Mailbox.waiting?_shifted (fun c => ?_) rfl Mailbox.isListed_shifted
      rcases hw : w c with _ | _ | ⟨e, ws⟩
      · rw [hM.nothing (by rw [hw]; rfl)]
        exact hw
      · rw [hM.nothing (by rw [hw]; rfl)]
        exact hw
      · obtain ⟨c', hreceive, hw'⟩ := hM.received hw
        rw [hreceive]
        exact hw'
  | drain sub =>
      refine h.onChannel Mailbox.waiting?_emptied (fun c => ?_) rfl Mailbox.isListed_emptied
      cases hw : w c with
      | none =>
          obtain ⟨c', hdrain, hw'⟩ := hM.dry hw
          rw [hdrain, hw']
          rfl
      | some ws =>
          obtain ⟨c', hdrain, hw'⟩ := hM.drained hw
          rw [hdrain, hw']
          rfl

theorem Agrees.turns (hM : M.Laws w) (h : Agrees w b o) : Agrees w (b.turns ts) (o.turns ts) := by
  induction ts generalizing b o with
  | nil => exact h
  | cons t ts ih => exact ih (h.turn hM t)

theorem Agrees.taken (hM : M.Laws w) (h : Agrees w b o) :
    b.taken sub t = t.taken sub (o.waiting? sub) := by
  cases t with
  | subscribe | emit | drop => rfl
  | receive k =>
      by_cases hk : k = sub
      · subst hk
        rw [← h.waiting, waiting?, Switchboard.taken, Turn.taken, if_pos rfl, if_pos rfl]
        cases b.channels[k]? with
        | none => rfl
        | some c =>
            rcases hw : w c with _ | _ | ⟨e, ws⟩
            · simp [hM.nothing (c := c) (by rw [hw]; rfl), hw]
            · simp [hM.nothing (c := c) (by rw [hw]; rfl), hw]
            · obtain ⟨c', hreceive, -⟩ := hM.received hw
              simp [hreceive, hw]
      · simp [Switchboard.taken, Turn.taken, hk]
  | drain k =>
      by_cases hk : k = sub
      · subst hk
        rw [← h.waiting, waiting?, Switchboard.taken, Turn.taken, if_pos rfl, if_pos rfl]
        cases b.channels[k]? with
        | none => rfl
        | some c =>
            cases hw : w c with
            | none =>
                obtain ⟨c', hdrain, -⟩ := hM.dry hw
                simp [hdrain, hw]
            | some ws =>
                obtain ⟨c', hdrain, -⟩ := hM.drained hw
                simp [hdrain, hw]
      · simp [Switchboard.taken, Turn.taken, hk]

theorem Agrees.received (hM : M.Laws w) (h : Agrees w b o) :
    received sub b ts = Observer.received sub o ts := by
  induction ts generalizing b o with
  | nil => rfl
  | cons t ts ih =>
      rw [Switchboard.received, Observer.received, h.taken hM, ih (h.turn hM t)]

end Switchboard

/-! ## Lists as channels -/

namespace Medium

/-- Channels that are lists of the events that wait, as long as there is a receiver. -/
def lists : Medium where
  Channel := Option (List Event)
  fresh := some []
  send e c := c.map fun ws => some (ws ++ [e])
  receive c := c.bind fun ws => ws.head?.map fun e => (e, some ws.tail)
  drain c := (c.getD [], c.map fun _ => [])
  drop _ := none

theorem laws_lists : lists.Laws id where
  fresh := rfl
  sent := by
    rintro _ ws e rfl
    exact ⟨_, rfl, rfl⟩
  failed := by
    rintro _ e rfl
    rfl
  received := by
    rintro _ e ws rfl
    exact ⟨_, rfl, rfl⟩
  nothing := by
    rintro (_ | _ | _) h
    · rfl
    · rfl
    · cases h
  drained := by
    rintro _ ws rfl
    exact ⟨_, rfl, rfl⟩
  dry := by
    rintro _ rfl
    exact ⟨_, rfl, rfl⟩
  dropped _ := rfl

end Medium

namespace Observer

/-- Whatever an observer and its subscribers do: a subscriber that is there got every event since it
came, once and in order, except for those that still wait; this does not depend on the turns of
other subscribers; nothing waits for one that let go of its mailbox, and it makes no difference to
an event that such a one is still listed; from an event to the next, those are counted that were
there at the event and those that came since. The same comes out of the channels of a switchboard,
whatever they are, waits in them, and is counted. -/
theorem every_event_once {M : Medium} {w : M.Channel → Option (List Event)} (hM : M.Laws w)
    (ts : List Turn) :
    let o := empty.turns ts
    let b : Switchboard M := Switchboard.empty.turns ts
    (∀ sub after, Turn.Since ts sub after → .drop sub ∉ after →
      ∃ ws, o.waiting? sub = some ws ∧ received sub empty ts ++ ws = Turn.sent after) ∧
    (∀ sub ts', ts'.filter (Turn.concerns sub) = ts.filter (Turn.concerns sub) →
      received sub empty ts' = received sub empty ts ∧
        (empty.turns ts').waiting? sub = o.waiting? sub) ∧
    (∀ sub, ¬ Turn.Live ts sub →
      o.waiting? sub = none ∧ ∀ e, (b.without sub).emit e = b.emit e) ∧
    (∀ e more, Turn.sent more = [] →
      ∃ live : List Nat, live.Pairwise (· < ·) ∧ (∀ sub, sub ∈ live ↔ Turn.Live ts sub) ∧
        ((o.emit e).turns more).count = live.length + more.count .subscribe) ∧
    (∀ sub, Switchboard.received sub (.empty : Switchboard M) ts = received sub empty ts ∧
      b.waiting? w sub = o.waiting? sub) ∧
    b.count = o.count := by
  intro o b
  have hb : Switchboard.Agrees w b o := Switchboard.Agrees.empty.turns hM
  refine ⟨fun sub after => received_append_waiting_of_since, fun sub ts' hfilter => ?_,
    fun sub hgone => ?_, fun e more hmore => ?_,
    fun sub => ⟨Switchboard.Agrees.empty.received hM, hb.waiting sub⟩, ?_⟩
  · have hown (ts : List Turn) :
        received sub empty ts = received sub empty (ts.filter (Turn.concerns sub)) ∧
          (empty.turns ts).waiting? sub =
            (empty.turns (ts.filter (Turn.concerns sub))).waiting? sub := turns_filter rfl rfl
    obtain ⟨hreceived, hwaiting⟩ := hown ts
    obtain ⟨hreceived', hwaiting'⟩ := hown ts'
    exact ⟨by rw [hreceived', hreceived, hfilter], by rw [hwaiting', hwaiting, hfilter]⟩
  · have hnone : o.waiting? sub = none := by
      rw [← Option.not_isSome_iff_eq_none]
      exact fun h => hgone (isSome_waiting?_iff.1 h)
    exact ⟨hnone, fun e => Switchboard.emit_without hM ((hb.waiting sub).trans hnone)⟩
  · refine ⟨(o.emit e).listed, ordered_listed, fun sub => ?_, ?_⟩
    · rw [mem_listed_emit, isSome_waiting?_iff]
    · rw [count_turns hmore, length_listed]
  · rw [Switchboard.count, hb.senders, length_listed]

/-- One subscriber lets go of its mailbox between two events and another comes; a third one hears
all three events and takes out the first. -/
theorem every_event_once_crossed_off :
    let ts : List Turn :=
      [.subscribe, .subscribe, .emit (.output 1), .drop 0, .subscribe, .emit (.output 2),
       .receive 1, .emit (.output 3)]
    let after := ts.drop 2
    let alone := ts.erase (.drop 0)
    let o := empty.turns ts
    let b : Switchboard .lists := Switchboard.empty.turns ts
    Medium.lists.Laws id ∧
    (Turn.Since ts 1 after ∧ .drop 1 ∉ after ∧
      ∃ ws, o.waiting? 1 = some ws ∧ [.output 1] ++ ws = [.output 1, .output 2, .output 3]) ∧
    (alone.filter (Turn.concerns 1) = ts.filter (Turn.concerns 1) ∧
      received 1 empty alone = [.output 1]) ∧
    (¬ Turn.Live ts 0 ∧ o.waiting? 0 = none) ∧
    (Turn.sent [.subscribe, .drain 2] = [] ∧
      ∃ live : List Nat, (∀ sub, sub ∈ live ↔ Turn.Live ts sub) ∧
        ((o.emit (.output 4)).turns [.subscribe, .drain 2]).count = live.length + 1) ∧
    Switchboard.received 1 (.empty : Switchboard .lists) ts = [.output 1] ∧
    b.waiting? id 1 = some [.output 2, .output 3] ∧ b.count = o.count := by
  intro ts after alone o b
  obtain ⟨heach, halone, hgone, hcount, hboard, hsenders⟩ := every_event_once Medium.laws_lists ts
  have hsince : Turn.Since ts 1 after := ⟨[.subscribe], rfl, rfl⟩
  have hstays : .drop 1 ∉ after := by decide
  have hfilter : alone.filter (Turn.concerns 1) = ts.filter (Turn.concerns 1) := by decide
  have hdropped : ¬ Turn.Live ts 0 := by
    rw [← isSome_waiting?_iff]
    decide
  obtain ⟨live, -, hlive, hcount⟩ := hcount (.output 4) [.subscribe, .drain 2] rfl
  exact ⟨Medium.laws_lists, ⟨hsince, hstays, heach 1 after hsince hstays⟩,
    ⟨hfilter, (halone 1 alone hfilter).1⟩, ⟨hdropped, (hgone 0 hdropped).1⟩,
    ⟨rfl, live, hlive, hcount⟩, (hboard 1).1, (hboard 1).2, hsenders⟩

end Observer

end Lc3
