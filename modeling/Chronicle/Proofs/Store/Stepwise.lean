import Chronicle.Proofs.Store.Commuting
import Chronicle.Proofs.Store.Refusals

/-!
# Mutations step by step

A store that is changed in place carries out a mutation in steps (`Store.enact`). A step that
refuses ends the mutation, and what the steps before it did stays. So the order of the steps counts:
none that changes the store may come before one that can refuse.

| mutation | steps, after the attribute is found |
| --- | --- |
| `set`, `push` | time, clock, stack, value |
| `increment` | time, sum, time, clock, value |
| `pop` | time, clock, stack, value; the last two only if there is a stack |
| `remove` | time, clock; for each attribute reached: stack, value unless it holds nothing |

The steps come to what the mutation comes to as a whole (`Store.outcome_enact`): the store that it
leads to if it is accepted, and otherwise the store as it was. Hence a mutation is carried out
wholly or not at all, and which of the two is known beforehand (`Store.enacted_wholly`).
-/

namespace Chronicle

namespace Store

/-- Steps on a store that is changed in place. -/
abbrev Steps (α : Type) :=
  ExceptT Refusal (StateM Store) α

namespace Steps

/-- What steps come to, and the store that they leave. -/
def outcome {α : Type} (x : Steps α) (s : Store) : Except Refusal α × Store :=
  x.run.run s

/-- There has to be such an attribute. -/
def find (q : Quark) : Steps Unit := do
  if (← get).tree.contains q then pure () else throw (.unknownQuark q)

/-- The time has to be that of the clock or after it. -/
def compare (t : Int64) : Steps Unit := do
  match (← get).clock with
  | some c => if t < c then throw (.late t c) else pure ()
  | none => pure ()

/-- Sets the clock, if the time is not before it. -/
def advance (t : Int64) : Steps Unit := do
  compare t
  modifyThe Store fun s => { s with clock := some t }

/-- Changes what is recorded of an attribute. -/
def record (q : Quark) (f : Track → Track) : Steps Unit :=
  modifyThe Store fun s => s.modify q f

/-- The sum of what an attribute holds and `delta` has to exist. -/
def sum (q : Quark) (delta : Int32) : Steps Int32 := do
  let s ← get
  match (s.track q).sum delta with
  | .ok n => pure n
  | .error (.notAnInt v) => throw (.notAnInt delta (s.tree.pathText q) v)
  | .error (.overflow n) => throw (.overflow (s.tree.pathText q) n delta)

/-- Forgets the stack of an attribute, and writes `null` unless it holds that. -/
def clear (t : Int64) (q : Quark) : Steps Unit := do
  record q fun k => { k with stack := [] }
  if ((← get).ongoing q).isNull then pure () else record q fun k => k.write t .null

end Steps

open Steps in
/-- The steps of a mutation of `q` at time `t`. -/
def enact (q : Quark) (t : Int64) : Mutation → Steps Answer
  | .set v => do
    find q
    advance t
    record q fun k => { k with stack := [] }
    record q fun k => k.write t v
    return .done
  | .increment delta => do
    find q
    compare t
    let n ← sum q delta
    advance t
    record q fun k => k.write t (.int n)
    return .sum (.int n)
  | .push v => do
    find q
    advance t
    record q fun k => { k with stack := v :: k.stack }
    record q fun k => k.write t v
    return .done
  | .pop => do
    find q
    advance t
    match ((← get).track q).stack with
    | [] => return .popped none
    | v :: rest =>
      record q fun k => { k with stack := rest }
      record q fun k => k.write t (rest.headD .null)
      return .popped (some v)
  | .remove => do
    find q
    advance t
    ((← get).tree.descendants q ++ [q]).forM (clear t)
    return .done

/-! ### One step after another -/

section

variable {α β : Type} {s after : Store} {q : Quark} {t : Int64}

theorem outcome_bind (x : Steps α) (f : α → Steps β) (s : Store) :
    (x >>= f).outcome s =
      match (x.outcome s).1 with
      | .ok a => (f a).outcome (x.outcome s).2
      | .error r => (.error r, (x.outcome s).2) := by
  simp only [Steps.outcome, ExceptT.run_bind, StateT.run_bind]
  cases StateT.run (ExceptT.run x) s with
  | mk result after => cases result <;> rfl

/-- After a step that does not refuse come the others, on the store that it left. -/
theorem outcome_bind_of_ok {x : Steps α} {a : α} (h : x.outcome s = (.ok a, after))
    (f : α → Steps β) : (x >>= f).outcome s = (f a).outcome after := by
  rw [outcome_bind, h]

/-- After a step that refuses comes no other. -/
theorem outcome_bind_of_error {x : Steps α} {r : Refusal} (h : x.outcome s = (.error r, after))
    (f : α → Steps β) : (x >>= f).outcome s = (.error r, after) := by
  rw [outcome_bind, h]

theorem outcome_get_bind (f : Store → Steps β) : (get >>= f).outcome s = (f s).outcome s := rfl

theorem outcome_record_bind (f : Track → Track) (g : Unit → Steps β) :
    (Steps.record q f >>= g).outcome s = (g ()).outcome (s.modify q f) := rfl

theorem outcome_find :
    (Steps.find q).outcome s =
      (if s.tree.contains q then .ok () else .error (.unknownQuark q), s) := by
  rw [Steps.find, outcome_get_bind]
  split <;> rfl

theorem outcome_compare_of_le (h : ∀ c ∈ s.clock, c ≤ t) :
    (Steps.compare t).outcome s = (.ok (), s) := by
  rw [Steps.compare, outcome_get_bind]
  cases hc : s.clock with
  | none => rfl
  | some c =>
      simp only [if_neg (Int64.not_lt.mpr (h c hc))]
      rfl

theorem outcome_compare_of_lt {c : Int64} (hc : s.clock = some c) (h : t < c) :
    (Steps.compare t).outcome s = (.error (.late t c), s) := by
  rw [Steps.compare, outcome_get_bind, hc]
  simp only [if_pos h]
  rfl

theorem outcome_advance_of_le (h : ∀ c ∈ s.clock, c ≤ t) :
    (Steps.advance t).outcome s = (.ok (), { s with clock := some t }) :=
  outcome_bind_of_ok (outcome_compare_of_le h) _

theorem outcome_advance_of_lt {c : Int64} (hc : s.clock = some c) (h : t < c) :
    (Steps.advance t).outcome s = (.error (.late t c), s) :=
  outcome_bind_of_error (outcome_compare_of_lt hc h) _

/-- A mutation that is permitted goes past its first steps, and the clock is set. -/
theorem outcome_permitted (h : s.permit q t = .ok ()) (f : Unit → Steps β) :
    (Steps.find q >>= fun _ => Steps.advance t >>= f).outcome s =
      (f ()).outcome { s with clock := some t } := by
  obtain ⟨hq, hle⟩ := permit_eq_ok_iff.mp h
  have hfind : (Steps.find q).outcome s = (.ok (), s) := by rw [outcome_find, if_pos hq]
  rw [outcome_bind_of_ok hfind, outcome_bind_of_ok (outcome_advance_of_le hle)]

/-- What is not permitted is refused before anything changes, if a step that refuses what is late
comes second. -/
theorem outcome_not_permitted {r : Refusal} (h : s.permit q t = .error r) {x : Steps Unit}
    (hx : ∀ c, s.clock = some c → t < c → x.outcome s = (.error (.late t c), s))
    (f : Unit → Steps β) : (Steps.find q >>= fun _ => x >>= f).outcome s = (.error r, s) := by
  rcases permit_eq_error_iff.mp h with ⟨hq, rfl⟩ | ⟨c, hq, hc, hlt, rfl⟩
  · exact outcome_bind_of_error (by rw [outcome_find, hq]; rfl) _
  · have hfind : (Steps.find q).outcome s = (.ok (), s) := by rw [outcome_find, if_pos hq]
    rw [outcome_bind_of_ok hfind, outcome_bind_of_error (hx c hc hlt)]

end

/-! ### Changing a track twice -/

variable {s : Store} {q : Quark} {t : Int64} {m : Mutation}

theorem modify_modify (s : Store) (q : Quark) (f g : Track → Track) :
    (s.modify q f).modify q g = s.modify q fun k => g (f k) := by
  unfold modify
  cases q.toNat? with
  | none => rfl
  | some i =>
      simp only
      congr 1
      refine Array.ext (by simp) fun j hj hj' => ?_
      simp only [Array.getElem_modify]
      split <;> rfl

theorem modify_id (s : Store) (q : Quark) : s.modify q id = s := by
  unfold modify
  cases q.toNat? with
  | none => rfl
  | some i =>
      simp only
      congr 1
      refine Array.ext (by simp) fun j hj hj' => ?_
      simp only [Array.getElem_modify, id, ite_self]

/-- Only what a change does to the track that is there counts. -/
theorem modify_congr {f g : Track → Track} (h : f (s.track q) = g (s.track q)) :
    s.modify q f = s.modify q g := by
  unfold modify
  cases hq : q.toNat? with
  | none => rfl
  | some i =>
      simp only
      congr 1
      refine Array.ext (by simp) fun j hj hj' => ?_
      simp only [Array.getElem_modify]
      split
      · next hij =>
        subst hij
        have hlt : i < s.tracks.size := by simpa using hj
        simpa [track, hq, hlt] using h
      · rfl

theorem outcome_clear (hs : s.tracks.size = s.tree.size) (hq : s.tree.contains q = true) :
    (Steps.clear t q).outcome s = (.ok (), s.modify q (Mutation.remove.act t)) := by
  have hheld : (s.modify q fun k => { k with stack := [] }).ongoing q = s.ongoing q := by
    rw [ongoing, track_modify hs hq, if_pos rfl]
    rfl
  rw [Steps.clear, outcome_record_bind, outcome_get_bind, hheld]
  cases hnull : (s.ongoing q).isNull with
  | true =>
      have hclear : s.modify q (Mutation.remove.act t) =
          s.modify q fun k => { k with stack := [] } :=
        modify_congr (if_pos hnull)
      rw [hclear]
      rfl
  | false =>
      have hclear : s.modify q (Mutation.remove.act t) =
          (s.modify q fun k => { k with stack := [] }).modify q fun k => k.write t .null := by
        rw [modify_modify]
        exact modify_congr (if_neg (Bool.eq_false_iff.mp hnull))
      rw [hclear]
      rfl

/-- One attribute after another is cleared. -/
theorem outcome_forM_clear (qs : List Quark) (hs : s.tracks.size = s.tree.size)
    (hq : ∀ q ∈ qs, s.tree.contains q = true) :
    (qs.forM (Steps.clear t)).outcome s =
      (.ok (), qs.foldl (fun s q => s.modify q (Mutation.remove.act t)) s) := by
  induction qs generalizing s with
  | nil => rfl
  | cons q rest ih =>
      obtain ⟨hq, hrest⟩ := List.forall_mem_cons.mp hq
      rw [List.forM, outcome_bind_of_ok (outcome_clear hs hq)]
      exact ih (by simpa using hs) (by simpa using hrest)

/-! ### Mutations -/

/-- A mutation that is not permitted is refused by its first steps. -/
theorem outcome_enact_of_not_permitted {r : Refusal} (h : s.permit q t = .error r) (m : Mutation) :
    (enact q t m).outcome s = (.error r, s) := by
  cases m with
  | increment delta => exact outcome_not_permitted h (fun c => outcome_compare_of_lt) _
  | _ => exact outcome_not_permitted h (fun c => outcome_advance_of_lt) _

theorem outcome_sum (delta : Int32) :
    (Steps.sum q delta).outcome s =
      (match (s.track q).sum delta with
        | .ok n => .ok n
        | .error (.notAnInt v) => .error (.notAnInt delta (s.tree.pathText q) v)
        | .error (.overflow n) => .error (.overflow (s.tree.pathText q) n delta), s) := by
  rw [Steps.sum, outcome_get_bind]
  cases (s.track q).sum delta with
  | ok n => rfl
  | error e => cases e <;> rfl

/-- An increment that does not add up is refused before anything changes. -/
theorem outcome_increment_of_error {delta : Int32} {r : Refusal} (h : s.permit q t = .ok ())
    (hr : s.addsUp q (.increment delta) = .error r) :
    (enact q t (.increment delta)).outcome s = (.error r, s) := by
  obtain ⟨hq, hle⟩ := permit_eq_ok_iff.mp h
  have hfind : (Steps.find q).outcome s = (.ok (), s) := by rw [outcome_find, if_pos hq]
  have hsum : (Steps.sum q delta).outcome s = (.error r, s) := by
    rw [outcome_sum]
    rw [addsUp] at hr
    cases hk : (s.track q).sum delta with
    | ok n => simp [hk] at hr
    | error e =>
        rw [hk] at hr
        cases e <;> obtain rfl := Except.error.inj hr <;> rfl
  rw [enact, outcome_bind_of_ok hfind, outcome_bind_of_ok (outcome_compare_of_le hle),
    outcome_bind_of_error hsum]

/-- An increment that adds up is carried out to its end. -/
theorem outcome_increment_of_sum {delta n : Int32} (h : s.permit q t = .ok ())
    (hn : (s.track q).sum delta = .ok n) :
    (enact q t (.increment delta)).outcome s =
      (.ok ((Mutation.increment delta).told t (s.track q)), s.perform q t (.increment delta)) := by
  obtain ⟨hq, hle⟩ := permit_eq_ok_iff.mp h
  have hfind : (Steps.find q).outcome s = (.ok (), s) := by rw [outcome_find, if_pos hq]
  have hsum : (Steps.sum q delta).outcome s = (.ok n, s) := by rw [outcome_sum, hn]
  have hact : (Mutation.increment delta).act t (s.track q) = (s.track q).write t (.int n) := by
    rw [Mutation.act, Track.increment, hn]
  have hperform : s.perform q t (.increment delta) =
      ({ s with clock := some t } : Store).modify q fun k => k.write t (.int n) :=
    modify_congr hact
  have htold : (Mutation.increment delta).told t (s.track q) = .sum (.int n) := by
    rw [Mutation.told_increment, Track.increment, hn]
    rfl
  rw [enact, outcome_bind_of_ok hfind, outcome_bind_of_ok (outcome_compare_of_le hle),
    outcome_bind_of_ok hsum, outcome_bind_of_ok (outcome_advance_of_le hle),
    outcome_record_bind, hperform, htold]
  rfl

/-- To take the top off a stack is carried out to its end, whether there is a top or not. -/
theorem outcome_pop (h : s.permit q t = .ok ()) :
    (enact q t .pop).outcome s = (.ok (Mutation.pop.told t (s.track q)), s.perform q t .pop) := by
  -- the store when the clock is set and nothing else has changed
  let now : Store := { s with clock := some t }
  have htrack : now.track q = s.track q := rfl
  rw [enact, outcome_permitted h, outcome_get_bind, htrack]
  cases hk : (s.track q).stack with
  | nil =>
      have hact : Mutation.pop.act t (now.track q) = now.track q := by
        rw [Mutation.act, Track.pop, htrack, hk]
      have hperform : s.perform q t .pop = now.modify q id := modify_congr hact
      rw [hperform, modify_id, Mutation.told_pop, hk]
      rfl
  | cons v rest =>
      have hact : Mutation.pop.act t (now.track q) =
          ({ now.track q with stack := rest } : Track).write t (rest.headD .null) := by
        rw [Mutation.act, Track.pop, htrack, hk]
        rfl
      have hperform : s.perform q t .pop =
          (now.modify q fun k => { k with stack := rest }).modify q fun k =>
            k.write t (rest.headD .null) := by
        rw [modify_modify]
        exact modify_congr hact
      rw [hperform, Mutation.told_pop, hk]
      rfl

/-- A mutation that is accepted is carried out to its end. -/
theorem outcome_enact_of_accepts (hs : s.tracks.size = s.tree.size) (h : s.Accepts q t m) :
    (enact q t m).outcome s = (.ok (m.told t (s.track q)), s.perform q t m) := by
  have hpermit := (accepts_iff.mp h).1
  cases m with
  | set v =>
      rw [enact, outcome_permitted hpermit, outcome_record_bind, outcome_record_bind, modify_modify]
      rfl
  | push v =>
      rw [enact, outcome_permitted hpermit, outcome_record_bind, outcome_record_bind, modify_modify]
      rfl
  | increment delta =>
      obtain ⟨n, hn⟩ := h.sum delta rfl
      exact outcome_increment_of_sum hpermit hn
  | pop => exact outcome_pop hpermit
  | remove =>
      let now : Store := { s with clock := some t }
      have hreach : ∀ d ∈ now.tree.descendants q ++ [q], now.tree.contains d = true := fun d hd =>
        Mutation.contains_of_mem_reach (m := .remove) h.contains hd
      rw [enact, outcome_permitted hpermit, outcome_get_bind,
        outcome_bind_of_ok (outcome_forM_clear (s := now) _ hs hreach)]
      rfl

/-- **The steps of a mutation come to what it comes to as a whole,** whether it is accepted or
refused. -/
theorem outcome_enact (hs : s.tracks.size = s.tree.size) (q : Quark) (t : Int64) (m : Mutation) :
    (enact q t m).outcome s = (s.answer q t m, s.call (.mutate q t m)) := by
  rw [answer_eq hs]
  cases hm : s.mutate q t m with
  | ok after =>
      obtain ⟨h, rfl⟩ := mutate_eq_ok_iff.mp hm
      rw [call_mutate_of_accepts h, outcome_enact_of_accepts hs h]
      rfl
  | error r =>
      have hnot : ¬s.Accepts q t m := fun h => by
        rw [mutate_eq_ok_iff.mpr ⟨h, rfl⟩] at hm
        cases hm
      rw [call_mutate_of_not_accepts hnot]
      cases hp : s.permit q t with
      | error e =>
          rw [mutate_eq, hp] at hm
          obtain rfl := Except.error.inj hm
          exact outcome_enact_of_not_permitted hp m
      | ok u =>
          rw [mutate_eq, hp] at hm
          cases ha : s.addsUp q m with
          | ok u =>
              rw [ha] at hm
              cases hm
          | error e =>
              rw [ha] at hm
              obtain rfl := Except.error.inj hm
              cases m with
              | increment delta => exact outcome_increment_of_error hp ha
              | _ => cases ha

/-- A mutation is carried out wholly or not at all.

* `unknownQuark`: it is refused if there is no such attribute;
* `late`: else, if its time is before the clock;
* `mismatch`: else, if it adds to what cannot be added to, or to no integer of 32 bits.
* `fails`: it is refused for no other reason.
* `intact`: if it is refused, the store is as it was.
* `clocked`: if it is not refused, the clock stands at its time.
* `whole`: its steps tell and leave what the mutation as a whole tells and leaves. -/
structure EnactedWholly (s : Store) (q : Quark) (t : Int64) (m : Mutation) : Prop where
  unknownQuark : ∀ p, ((enact q t m).outcome s).1 = .error (.unknownQuark p) ↔
    s.tree.contains q = false ∧ p = q
  late : ∀ u c, ((enact q t m).outcome s).1 = .error (.late u c) ↔
    s.tree.contains q = true ∧ s.clock = some c ∧ t < c ∧ u = t
  mismatch : (∃ r, ((enact q t m).outcome s).1 = .error r ∧ r.mismatch?.isSome = true) ↔
    s.tree.contains q = true ∧ (∀ c ∈ s.clock, c ≤ t) ∧
      ∃ delta, m = .increment delta ∧ (s.ongoing q).Unaddable delta
  fails : (∃ r, ((enact q t m).outcome s).1 = .error r) ↔
    s.tree.contains q = false ∨ (∃ c ∈ s.clock, t < c) ∨
      ∃ delta, m = .increment delta ∧ (s.ongoing q).Unaddable delta
  intact : ∀ r, ((enact q t m).outcome s).1 = .error r → ((enact q t m).outcome s).2 = s
  clocked : ∀ a, ((enact q t m).outcome s).1 = .ok a →
    ((enact q t m).outcome s).2.clock = some t
  whole : (enact q t m).outcome s = (s.answer q t m, s.call (.mutate q t m))

theorem answer_eq_error_iff (hs : s.tracks.size = s.tree.size) {r : Refusal} :
    s.answer q t m = .error r ↔ s.Refuses q t m r := by
  rw [answer_eq hs, ← mutate_eq_error_iff]
  cases s.mutate q t m with
  | ok after => simp [Except.map]
  | error e => simp [Except.map]

/-- **A mutation is carried out wholly or not at all,** on any store that calls lead to, whatever
the attribute, which need not be there, the time and the values. -/
theorem enacted_wholly (hs : s.Reachable) (q : Quark) (t : Int64) (m : Mutation) :
    s.EnactedWholly q t m := by
  have hsize := hs.tracks_size
  have houtcome := outcome_enact hsize q t m
  have herror : ∀ r, ((enact q t m).outcome s).1 = .error r ↔ s.Refuses q t m r := fun r => by
    rw [houtcome]
    exact answer_eq_error_iff hsize
  refine {
    unknownQuark := fun p => (herror _).trans refuses_unknownQuark_iff
    late := fun u c => (herror _).trans refuses_late_iff
    mismatch := by simp only [herror, exists_refuses_mismatch_iff]
    fails := by simp only [herror, exists_refuses_iff]
    intact := fun r hr => ?_
    clocked := fun a ha => ?_
    whole := houtcome }
  · rw [houtcome, call, mutate_eq_error_iff.mpr ((herror r).mp hr)]
  · rw [houtcome, answer_eq hsize] at ha
    obtain ⟨after, hafter, -⟩ := map_eq_ok_iff.mp ha
    obtain ⟨-, rfl⟩ := mutate_eq_ok_iff.mp hafter
    rw [houtcome, call, hafter]
    exact perform_clock

/-- The largest integer, to which nothing more can be added, on a stack: the sum is refused after
the times have been compared, and the clock stands where it stood. -/
theorem enacted_wholly_of_largest :
    let s := ({} : Store).callEach [.create .root "Total", .mutate 0 3 (.push (.int 2147483647))]
    s.Reachable ∧ s.EnactedWholly 0 8 (.increment 1) ∧
      (enact 0 8 (.increment 1)).outcome s = (.error (.overflow "Total" 2147483647 1), s) ∧
      s.clock = some 3 := by
  intro s
  have hs : s.Reachable := Reachable.empty.callEach _
  exact ⟨hs, enacted_wholly hs 0 8 (.increment 1), by decide +kernel, by decide +kernel⟩

end Store
end Chronicle
