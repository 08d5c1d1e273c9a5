import Chronicle.Proofs.Store.Chain
import Chronicle.Proofs.Store.Stack
import Mathlib.Data.List.Infix

/-!
# Pushes and pops that balance

The pushes on the stack of an attribute and the pops of it balance in a list of calls if no start of
the list has more pops than pushes, and the whole has as many of the one as of the other
(`Balanced`). Then they pair up: a `pop` matches the last `push` before it for which the calls in
between balance, and a list balances exactly if it is put together from such pairs, with calls of
other kinds anywhere (`nested_iff_balanced`).

What is nested leaves the stack as it was, whatever the stack (`Store.keepsStack_of_nested`), so a `pop`
finds on top what the `push` that it matches has put there. Other attributes may be worked on in
between, as long as the attribute is left alone (`Store.Works`). All attributes share one clock, so
a `push` or a `pop` has to be in time when it is made.
-/

namespace Chronicle

namespace Call

/-- The call pushes on the stack of `q`. -/
def pushesOn (q : Quark) : Call → Bool
  | .mutate p _ (.push _) => p == q
  | _ => false

/-- The call pops the stack of `q`. -/
def popsOn (q : Quark) : Call → Bool
  | .mutate p _ .pop => p == q
  | _ => false

/-- The call does neither. -/
def IsAside (q : Quark) (c : Call) : Prop :=
  c.pushesOn q = false ∧ c.popsOn q = false

instance (q : Quark) (c : Call) : Decidable (c.IsAside q) :=
  inferInstanceAs (Decidable (_ ∧ _))

variable {q : Quark} {t : Int64} {v : Value}

@[simp] theorem pushesOn_push : (Call.mutate q t (.push v)).pushesOn q = true :=
  beq_self_eq_true q

@[simp] theorem popsOn_push : (Call.mutate q t (.push v)).popsOn q = false := rfl

@[simp] theorem pushesOn_pop : (Call.mutate q t .pop).pushesOn q = false := rfl

@[simp] theorem popsOn_pop : (Call.mutate q t .pop).popsOn q = true :=
  beq_self_eq_true q

theorem onStack_cases (q : Quark) (c : Call) :
    (∃ t v, c = .mutate q t (.push v)) ∨ (∃ t, c = .mutate q t .pop) ∨ c.IsAside q := by
  cases c with
  | create parent name => exact .inr (.inr ⟨rfl, rfl⟩)
  | mutate p t m =>
      by_cases hp : p = q
      · subst hp
        cases m with
        | push v => exact .inl ⟨t, v, rfl⟩
        | pop => exact .inr (.inl ⟨t, rfl⟩)
        | _ => exact .inr (.inr ⟨rfl, rfl⟩)
      · have hne : (p == q) = false := beq_eq_false_iff_ne.mpr hp
        cases m with
        | push v => exact .inr (.inr ⟨hne, rfl⟩)
        | pop => exact .inr (.inr ⟨rfl, hne⟩)
        | _ => exact .inr (.inr ⟨rfl, rfl⟩)

end Call

/-! ### Pairs -/

/-- How many of the calls push on the stack of `q`. -/
def pushes (q : Quark) (calls : List Call) : Nat :=
  calls.countP (·.pushesOn q)

/-- How many of the calls pop the stack of `q`. -/
def pops (q : Quark) (calls : List Call) : Nat :=
  calls.countP (·.popsOn q)

/-- The pushes on the stack of `q` and the pops of it balance.

* `covered`: no start of the calls has more pops than pushes.
* `even`: there are as many of the one as of the other. -/
structure Balanced (q : Quark) (calls : List Call) : Prop where
  covered : ∀ start, start <+: calls → pops q start ≤ pushes q start
  even : pops q calls = pushes q calls

instance (q : Quark) (calls : List Call) : Decidable (Balanced q calls) :=
  decidable_of_iff ((∀ start ∈ calls.inits, pops q start ≤ pushes q start) ∧
      pops q calls = pushes q calls)
    ⟨fun h => ⟨fun start hstart => h.1 start ((List.mem_inits start calls).mpr hstart), h.2⟩,
      fun h => ⟨fun start hstart => h.covered start ((List.mem_inits start calls).mp hstart),
        h.even⟩⟩

/-- The calls are put together from pairs of a push and a pop and from calls that do neither. -/
inductive Nested (q : Quark) : List Call → Prop
  | nil : Nested q []
  | aside {calls : List Call} {c : Call} :
      Nested q calls → c.IsAside q → Nested q (calls ++ [c])
  | pair {outer inside : List Call} {t u : Int64} {v : Value} :
      Nested q outer → Nested q inside →
        Nested q (outer ++ .mutate q t (.push v) :: inside ++ [.mutate q u .pop])

/-- The value `v` was pushed by the push that a pop after these calls matches: what lies in between
balances. -/
def Opened (q : Quark) (calls : List Call) (v : Value) : Prop :=
  ∃ outer t inside, calls = outer ++ .mutate q t (.push v) :: inside ∧ Balanced q inside

section

variable {q : Quark} {t : Int64} {v : Value} {calls more outer inside : List Call}

theorem pushes_concat (c : Call) :
    pushes q (calls ++ [c]) = pushes q calls + if c.pushesOn q then 1 else 0 := by
  rw [pushes, List.countP_append, List.countP_singleton, pushes]

theorem pops_concat (c : Call) :
    pops q (calls ++ [c]) = pops q calls + if c.popsOn q then 1 else 0 := by
  rw [pops, List.countP_append, List.countP_singleton, pops]

theorem pushes_opened :
    pushes q (outer ++ .mutate q t (.push v) :: inside) = pushes q outer + pushes q inside + 1 := by
  rw [pushes, List.countP_append, List.countP_cons, Call.pushesOn_push, if_pos rfl, pushes, pushes,
    Nat.add_assoc]

theorem pops_opened :
    pops q (outer ++ .mutate q t (.push v) :: inside) = pops q outer + pops q inside := by
  rw [pops, List.countP_append, List.countP_cons, Call.popsOn_push, if_neg Bool.false_ne_true, pops,
    pops, Nat.add_zero]

theorem Nested.even (h : Nested q calls) : pops q calls = pushes q calls := by
  induction h with
  | nil => rfl
  | aside _ hc ih => rw [pops_concat, pushes_concat, hc.1, hc.2, ih]
  | pair _ _ iho ihi =>
      rw [pops_concat, pushes_concat, pops_opened, pushes_opened, iho, ihi, Call.popsOn_pop,
        Call.pushesOn_pop]
      rfl

/-- Where there are more pushes than pops, a push is open: what follows it is nested. -/
theorem exists_opened (h : pops q calls < pushes q calls) :
    ∃ outer t v inside, calls = outer ++ .mutate q t (.push v) :: inside ∧ Nested q inside := by
  induction hn : calls.length using Nat.strongRecOn generalizing calls with
  | ind n ih =>
      rcases List.eq_nil_or_concat calls with rfl | ⟨init, c, rfl⟩
      · exact absurd h (Nat.lt_irrefl 0)
      · rw [List.concat_eq_append] at h hn ⊢
        rw [List.length_append, List.length_singleton] at hn
        rw [pops_concat, pushes_concat] at h
        rcases c.onStack_cases q with ⟨t, v, rfl⟩ | ⟨u, rfl⟩ | hc
        · exact ⟨init, t, v, [], rfl, .nil⟩
        · -- the last is a pop, so another push is open before the one that it matches
          rw [Call.popsOn_pop, Call.pushesOn_pop, if_pos rfl, if_neg Bool.false_ne_true] at h
          obtain ⟨outer, t, v, inside, rfl, hin⟩ := ih init.length (by omega) (by omega) rfl
          have heven := hin.even
          rw [pops_opened, pushes_opened] at h
          have hshort : outer.length < n := by
            rw [List.length_append] at hn
            omega
          obtain ⟨first, t', v', between, rfl, hbetween⟩ :=
            ih outer.length hshort (by omega) rfl
          refine ⟨first, t', v', between ++ .mutate q t (.push v) :: inside ++ [.mutate q u .pop],
            ?_, .pair hbetween hin⟩
          simp only [List.append_assoc, List.cons_append]
        · rw [hc.1, hc.2, if_neg Bool.false_ne_true] at h
          obtain ⟨outer, t, v, inside, rfl, hin⟩ := ih init.length (by omega) h rfl
          refine ⟨outer, t, v, inside ++ [c], ?_, .aside hin hc⟩
          rw [List.append_assoc, List.cons_append]

theorem Balanced.of_prefix (h : Balanced q calls) (hpre : more <+: calls)
    (heven : pops q more = pushes q more) : Balanced q more :=
  ⟨fun start hstart => h.covered start (hstart.trans hpre), heven⟩

theorem Balanced.nested (h : Balanced q calls) : Nested q calls := by
  induction hn : calls.length using Nat.strongRecOn generalizing calls with
  | ind n ih =>
      rcases List.eq_nil_or_concat calls with rfl | ⟨init, c, rfl⟩
      · exact .nil
      · rw [List.concat_eq_append] at h hn ⊢
        rw [List.length_append, List.length_singleton] at hn
        have hpre : init <+: init ++ [c] := List.prefix_append init [c]
        have hcovered := h.covered init hpre
        have heven := h.even
        rw [pops_concat, pushes_concat] at heven
        rcases c.onStack_cases q with ⟨t, v, rfl⟩ | ⟨u, rfl⟩ | hc
        · -- a push at the end would make up for a pop too many before it
          rw [Call.popsOn_push, Call.pushesOn_push, if_pos rfl, if_neg Bool.false_ne_true] at heven
          omega
        · rw [Call.popsOn_pop, Call.pushesOn_pop, if_pos rfl, if_neg Bool.false_ne_true] at heven
          have hopen : pops q init < pushes q init := by omega
          obtain ⟨outer, t, v, inside, rfl, hin⟩ := exists_opened hopen
          have hineven := hin.even
          rw [pops_opened, pushes_opened] at heven
          have houter : Balanced q outer :=
            h.of_prefix ((List.prefix_append outer _).trans hpre) (by omega)
          have hshort : outer.length < n := by
            rw [List.length_append] at hn
            omega
          exact .pair (ih outer.length hshort houter rfl) hin
        · rw [hc.1, hc.2, if_neg Bool.false_ne_true] at heven
          exact .aside (ih init.length (by omega) (h.of_prefix hpre heven) rfl) hc

theorem Nested.covered (h : Nested q calls) :
    ∀ start, start <+: calls → pops q start ≤ pushes q start := by
  induction h with
  | nil =>
      intro start hstart
      rw [List.prefix_nil.mp hstart]
      exact Nat.le_refl 0
  | aside h hc ih =>
      intro start hstart
      rcases List.prefix_concat_iff.mp hstart with rfl | hstart
      · exact Nat.le_of_eq (h.aside hc).even
      · exact ih start hstart
  | @pair outer inside t u v ho hi iho ihi =>
      intro start hstart
      rcases List.prefix_concat_iff.mp hstart with rfl | hstart
      · exact Nat.le_of_eq (ho.pair hi).even
      · rcases List.prefix_or_prefix_of_prefix hstart (List.prefix_append outer _) with
          hstart' | ⟨rest, rfl⟩
        · exact iho start hstart'
        · rcases List.prefix_cons_iff.mp ((List.prefix_append_right_inj outer).mp hstart) with
            rfl | ⟨first, rfl, hfirst⟩
          · rw [List.append_nil]
            exact Nat.le_of_eq ho.even
          · have hle := ihi first hfirst
            have heven := ho.even
            rw [pops_opened, pushes_opened]
            omega

/-- **Pushes and pops balance exactly if they pair up.** -/
theorem nested_iff_balanced : Nested q calls ↔ Balanced q calls :=
  ⟨fun h => ⟨h.covered, h.even⟩, Balanced.nested⟩

end

/-! ### Runs -/

namespace Store

/-- The call leaves `q` alone: it creates an attribute or is made on others. -/
def Spares (s : Store) (q : Quark) : Call → Prop
  | .create _ _ => True
  | .mutate p _ m => q ∉ m.reach s.tree p

/-- The call is not late. -/
def InTime (s : Store) : Call → Prop
  | .create _ _ => True
  | .mutate _ t _ => ∀ c ∈ s.clock, c ≤ t

/-- Each of the calls, when it is made, pushes on the stack of `q` or pops it and is in time, or
else leaves `q` alone. -/
def Works (s : Store) (q : Quark) : List Call → Prop
  | [] => True
  | c :: rest => (s.Spares q c ∨ ¬c.IsAside q ∧ s.InTime c) ∧ (s.call c).Works q rest

instance (s : Store) (q : Quark) : (c : Call) → Decidable (s.Spares q c)
  | .create _ _ => .isTrue trivial
  | .mutate _ _ _ => inferInstanceAs (Decidable (_ ∉ _))

instance (s : Store) : (c : Call) → Decidable (s.InTime c)
  | .create _ _ => .isTrue trivial
  -- by name: with Mathlib the instance that is found tries all 64-bit integers
  | .mutate _ _ _ => Option.decidableForallMem s.clock

instance decidableWorks (s : Store) (q : Quark) : (calls : List Call) → Decidable (s.Works q calls)
  | [] => .isTrue trivial
  | c :: rest =>
    have := decidableWorks (s.call c) q rest
    inferInstanceAs (Decidable (_ ∧ _))

variable {s : Store} {q : Quark} {t : Int64} {v : Value} {calls more : List Call}

theorem works_append :
    s.Works q (calls ++ more) ↔ s.Works q calls ∧ (s.callEach calls).Works q more := by
  induction calls generalizing s with
  | nil => exact (and_iff_right trivial).symm
  | cons c rest ih => exact (and_congr_right fun _ => ih).trans and_assoc.symm

theorem growsTo_call (hs : s.tracks.size = s.tree.size) (c : Call) :
    s.tree.GrowsTo (s.call c).tree := by
  rcases s.call_cases hs c with hc | ⟨parent, name, _, _, hc⟩ | ⟨p, t, m, _, _, hc⟩
  · rw [hc]
    exact .refl s.tree
  · rw [hc, withTree_tree]
    exact s.tree.growsTo_push ⟨name, parent⟩
  · rw [hc, perform_tree]
    exact .refl s.tree

theorem contains_callEach (hs : s.Reachable) (hq : s.tree.contains q = true) (calls : List Call) :
    (s.callEach calls).tree.contains q = true := by
  induction calls generalizing s with
  | nil => exact hq
  | cons c rest ih => exact ih (hs.call c) ((growsTo_call hs.tracks_size c).contains hq)

theorem track_call_of_spares (hs : s.Reachable) {c : Call} (h : s.Spares q c) :
    (s.call c).track q = s.track q := by
  cases c with
  | create parent name => exact track_call_create s parent name q
  | mutate p t m => exact track_call_mutate hs.tracks_size h

/-- A call on the stack of `q` among such calls is in time. -/
theorem Works.inTime {m : Mutation} (h : s.Works q (.mutate q t m :: more)) :
    ∀ c ∈ s.clock, c ≤ t := by
  rcases h.1 with hspares | ⟨-, htime⟩
  · exact absurd (m.self_mem_reach s.tree q) hspares
  · exact htime

/-- A call that does neither leaves what is recorded of `q` alone. -/
theorem Works.track_aside (hs : s.Reachable) {c : Call} (h : s.Works q (c :: more))
    (hc : c.IsAside q) : (s.call c).track q = s.track q := by
  rcases h.1 with hspares | ⟨hstack, -⟩
  · exact track_call_of_spares hs hspares
  · exact absurd hc hstack

theorem callEach_append (s : Store) (calls more : List Call) :
    s.callEach (calls ++ more) = (s.callEach calls).callEach more :=
  List.foldl_append

/-- A mutation of `q` that is in time and adds nothing is accepted, and acts on `q`. -/
theorem mutate_of_inTime (hs : s.Reachable) (hq : s.tree.contains q = true)
    (ht : ∀ c ∈ s.clock, c ≤ t) {m : Mutation} (hm : ∀ delta, m ≠ .increment delta) :
    s.mutate q t m = .ok (s.call (.mutate q t m)) ∧
      (s.call (.mutate q t m)).track q = m.act t (s.track q) := by
  have haccepts : s.Accepts q t m := ⟨hq, ht, fun delta h => absurd h (hm delta)⟩
  rw [call_mutate_of_accepts haccepts, mutate_eq_ok_iff]
  refine ⟨⟨haccepts, rfl⟩, ?_⟩
  rw [track_perform hs.tracks_size hq, if_pos (m.self_mem_reach s.tree q)]

/-- A pop in time of a stack with `v` on top tells `v`, and what is then on top is held. -/
theorem pop_of_stack_eq (hs : s.Reachable) (hq : s.tree.contains q = true)
    (ht : ∀ c ∈ s.clock, c ≤ t) {below : List Value} (h : (s.track q).stack = v :: below) :
    s.pop q t = .ok (some v, s.call (.mutate q t .pop)) ∧
      ((s.call (.mutate q t .pop)).track q).stack = below ∧
        (s.call (.mutate q t .pop)).ongoing q = below.headD .null := by
  obtain ⟨hmutate, htrack⟩ := mutate_of_inTime hs hq ht (m := .pop) (by simp)
  refine ⟨by rw [pop_eq_ok hmutate, h, List.head?_cons], ?_⟩
  rw [ongoing, htrack, Mutation.act, Track.pop, h]
  exact ⟨rfl, rfl⟩

/-- Wherever the calls work on `q`, they leave its stack as it was. -/
def KeepsStack (q : Quark) (calls : List Call) : Prop :=
  ∀ s : Store, s.Reachable → s.tree.contains q = true → s.Works q calls →
    ((s.callEach calls).track q).stack = (s.track q).stack

/-- What was pushed before calls that keep the stack is on top after them. -/
theorem KeepsStack.stack_opened {outer inside : List Call} (hin : KeepsStack q inside)
    (hs : s.Reachable) (hq : s.tree.contains q = true)
    (hw : s.Works q (outer ++ .mutate q t (.push v) :: inside)) :
    ((s.callEach (outer ++ .mutate q t (.push v) :: inside)).track q).stack =
      v :: ((s.callEach outer).track q).stack := by
  have hpush := (works_append.mp hw).2
  have hs₁ := hs.callEach outer
  have hq₁ := contains_callEach hs hq outer
  have hq₂ := (growsTo_call hs₁.tracks_size (.mutate q t (.push v))).contains hq₁
  obtain ⟨-, htrack⟩ := mutate_of_inTime hs₁ hq₁ hpush.inTime (m := .push v) (by simp)
  rw [callEach_append]
  exact (hin _ (hs₁.call _) hq₂ hpush.2).trans (congrArg Track.stack htrack)

/-- The pop of a pair finds on top what the push has put there, so the stack is as it was, and what
is then on top is held. -/
theorem KeepsStack.pair {outer inside : List Call} {u : Int64} (ho : KeepsStack q outer)
    (hin : KeepsStack q inside) (hs : s.Reachable) (hq : s.tree.contains q = true)
    (hw : s.Works q (outer ++ .mutate q t (.push v) :: inside ++ [.mutate q u .pop])) :
    let after := s.callEach (outer ++ .mutate q t (.push v) :: inside ++ [.mutate q u .pop])
    (after.track q).stack = (s.track q).stack ∧
      after.ongoing q = (s.track q).stack.headD .null := by
  obtain ⟨hopened, hpop⟩ := works_append.mp hw
  have htop := hin.stack_opened hs hq hopened
  rw [ho s hs hq (works_append.mp hopened).1] at htop
  rw [callEach_append]
  exact (pop_of_stack_eq (hs.callEach _) (contains_callEach hs hq _) hpop.inTime htop).2

/-- **What is nested leaves the stack as it was,** whatever the stack. -/
theorem keepsStack_of_nested (h : Nested q calls) : KeepsStack q calls := by
  induction h with
  | nil => exact fun _ _ _ _ => rfl
  | aside _ hc ih =>
      intro s hs hq hw
      obtain ⟨hfirst, hlast⟩ := works_append.mp hw
      rw [callEach_append]
      exact (congrArg Track.stack (hlast.track_aside (hs.callEach _) hc)).trans (ih s hs hq hfirst)
  | pair _ _ iho ihi => exact fun _ hs hq hw => (iho.pair ihi hs hq hw).1

/-- After calls that are nested, with a pop among them, the top of the stack is held. -/
theorem ongoing_of_nested (h : Nested q calls) (hs : s.Reachable) (hq : s.tree.contains q = true)
    (hw : s.Works q calls) (hpops : 0 < pops q calls) :
    (s.callEach calls).ongoing q = (s.track q).stack.headD .null := by
  induction h with
  | nil => exact absurd hpops (Nat.lt_irrefl 0)
  | aside _ hc ih =>
      obtain ⟨hfirst, hlast⟩ := works_append.mp hw
      rw [pops_concat, hc.2, if_neg Bool.false_ne_true] at hpops
      rw [callEach_append]
      exact (congrArg Track.ongoing (hlast.track_aside (hs.callEach _) hc)).trans
        (ih hfirst hpops)
  | pair ho hi _ _ =>
      exact ((keepsStack_of_nested ho).pair (keepsStack_of_nested hi) hs hq hw).2

/-- A pop tells the value that was pushed by the push that it matches. -/
theorem pop_of_opened (hs : s.Reachable) (hq : s.tree.contains q = true)
    (hw : s.Works q (calls ++ .mutate q t .pop :: more)) (h : Opened q calls v) :
    (s.callEach calls).pop q t =
      .ok (some v, (s.callEach calls).call (.mutate q t .pop)) := by
  obtain ⟨hcalls, hpop⟩ := works_append.mp hw
  obtain ⟨outer, u, inside, rfl, hin⟩ := h
  have htop := (keepsStack_of_nested hin.nested).stack_opened hs hq hcalls
  exact (pop_of_stack_eq (hs.callEach _) (contains_callEach hs hq _) hpop.inTime htop).1

/-- What comes of pushes and pops that balance.

* `pushes`: no push is refused.
* `pops`: each pop matches a push and tells the value that this push has put on the stack.
* `stack`: the stack holds what it held.
* `ongoing`: the attribute holds the value on top, or `null` if there is none. -/
structure Restored (s : Store) (q : Quark) (calls : List Call) : Prop where
  pushes : ∀ before t v after, calls = before ++ .mutate q t (.push v) :: after →
    (s.callEach before).mutate q t (.push v) =
      .ok ((s.callEach before).call (.mutate q t (.push v)))
  pops : ∀ before t after, calls = before ++ .mutate q t .pop :: after →
    ∃ v, (∀ w, Opened q before w ↔ w = v) ∧
      (s.callEach before).pop q t =
        .ok (some v, (s.callEach before).call (.mutate q t .pop))
  stack : ((s.callEach calls).track q).stack = (s.track q).stack
  ongoing : (s.callEach calls).ongoing q = (s.track q).stack.headD .null

/-- **Pushes and pops that balance restore the stack.** They may be made among any other calls that
leave the attribute alone, if each is in time when it is made. -/
theorem restores (hs : s.Reachable) (hq : s.tree.contains q = true) (hw : s.Works q calls)
    (hb : Balanced q calls) (hpushes : 0 < pushes q calls) : s.Restored q calls where
  pushes before t v after hcalls := by
    subst hcalls
    have hpush := (works_append.mp hw).2.inTime
    exact (mutate_of_inTime (hs.callEach before) (contains_callEach hs hq before) hpush
      (by simp)).1
  pops before t after hcalls := by
    subst hcalls
    -- one pop more is covered, so a push is open before it
    have hcovered := hb.covered (before ++ [.mutate q t .pop]) ⟨after, by simp⟩
    rw [pops_concat, pushes_concat, Call.popsOn_pop, Call.pushesOn_pop, if_pos rfl,
      if_neg Bool.false_ne_true] at hcovered
    obtain ⟨outer, u, v, inside, rfl, hin⟩ := exists_opened (q := q) hcovered
    have hopened : Opened q (outer ++ .mutate q u (.push v) :: inside) v :=
      ⟨outer, u, inside, rfl, nested_iff_balanced.mp hin⟩
    have hpop := pop_of_opened hs hq hw hopened
    refine ⟨v, fun w => ⟨fun h => ?_, fun h => h ▸ hopened⟩, hpop⟩
    rw [pop_of_opened hs hq hw h] at hpop
    exact Option.some.inj (Prod.mk.inj (Except.ok.inj hpop)).1
  stack := keepsStack_of_nested hb.nested s hs hq hw
  ongoing := ongoing_of_nested hb.nested hs hq hw (hb.even ▸ hpushes)

/-- Two frames, one inside the other, on a stack whose top was added to: the value held before, 6,
is not restored, but the top, 5. In between another attribute is pushed, popped too late and
removed. -/
theorem restores_of_two :
    let s := ({} : Store).callEach [.create .root "Status", .mutate 0 1 (.push (.int 5)),
      .mutate 0 2 (.increment 1)]
    let calls : List Call := [.mutate 0 4 (.push (.text "run")), .create 0 "Irq",
      .mutate 1 5 (.push (.int 1)), .mutate 0 5 (.push (.text "irq")), .mutate 1 3 .pop,
      .mutate 0 6 .pop, .mutate 1 7 .remove, .mutate 0 7 .pop]
    s.Reachable ∧ s.tree.contains 0 = true ∧ s.Works 0 calls ∧ Balanced 0 calls ∧
      0 < pushes 0 calls ∧ s.Restored 0 calls ∧ s.ongoing 0 = .int 6 ∧
      (s.callEach calls).ongoing 0 = .int 5 := by
  intro s calls
  have hs : s.Reachable := Reachable.empty.callEach _
  have hq : s.tree.contains 0 = true := by decide +kernel
  have hw : s.Works 0 calls := by decide +kernel
  have hb : Balanced 0 calls := by decide +kernel
  have hpushes : 0 < pushes 0 calls := by decide +kernel
  exact ⟨hs, hq, hw, hb, hpushes, restores hs hq hw hb hpushes, by decide +kernel,
    by decide +kernel⟩

end Store
end Chronicle
