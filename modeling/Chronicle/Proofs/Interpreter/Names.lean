import Chronicle.Proofs.Interpreter.Unfolding
import Chronicle.Proofs.Store.Growth

/-!
# The names that a path spells

A path is a list of names that are read off the event and off a store (`Scope.Spells`), some of
which may be undefined. To find the attribute at a path is to spell the path and to walk along the
names (`Scope.Spells.val_find`); to grow along a path is to spell the path in the store *before*
anything is created, and to plant what is missing on the way (`Scope.Spells.grow_follows`).

Growing spells its queries as it goes, in stores that are half grown. They are spelled alike there,
because an attribute that was created on the way holds nothing, and a query that comes to an
attribute that holds nothing has no name, as if it had come to none (`Scope.Spells.of_growsTo`).
-/

namespace Chronicle

/-- Names of which some may be undefined. -/
abbrev Spelling := List (Option String)

namespace Spelling

/-- The names, if all are defined. -/
def names? : Spelling → Option (List String)
  | [] => some []
  | none :: _ => none
  | some name :: rest => (names? rest).map (name :: ·)

/-- The names before the first that is undefined. -/
def leading : Spelling → List String
  | [] => []
  | none :: _ => []
  | some name :: rest => name :: leading rest

variable {ns : Spelling} {names : List String}

theorem names?_append (ns ms : Spelling) :
    names? (ns ++ ms) = (names? ns).bind fun names => (names? ms).map (names ++ ·) := by
  induction ns with
  | nil => simp [names?]
  | cons n rest ih =>
      cases n with
      | none => rfl
      | some name =>
          rw [List.cons_append, names?, names?, ih]
          cases names? rest with
          | none => rfl
          | some names => cases names? ms <;> rfl

theorem leading_of_names? (h : names? ns = some names) : leading ns = names := by
  induction ns generalizing names with
  | nil => rw [leading, Option.some.inj h]
  | cons n rest ih =>
      cases n with
      | none => cases h
      | some name =>
          obtain ⟨names, hn, rfl⟩ := Option.map_eq_some_iff.mp h
          rw [leading, ih hn]

/-- What follows names that are all defined leads on. -/
theorem leading_append_of_names? (h : names? ns = some names) (ms : Spelling) :
    leading (ns ++ ms) = names ++ leading ms := by
  induction ns generalizing names with
  | nil => rw [← Option.some.inj h, List.nil_append, List.nil_append]
  | cons n rest ih =>
      cases n with
      | none => cases h
      | some name =>
          obtain ⟨names, hn, rfl⟩ := Option.map_eq_some_iff.mp h
          rw [List.cons_append, leading, ih hn, List.cons_append]

/-- What follows an undefined name does not count. -/
theorem leading_append_of_none (h : names? ns = none) (ms : Spelling) :
    leading (ns ++ ms) = leading ns := by
  induction ns with
  | nil => cases h
  | cons n rest ih =>
      cases n with
      | none => rfl
      | some name => rw [List.cons_append, leading, leading, ih (Option.map_eq_none_iff.mp h)]

end Spelling

namespace Store

/-- The attribute that names lead to from `q` on, if all are defined and all are there. -/
def led? (s : Store) (q : Quark) (ns : Spelling) : Option Quark :=
  ns.names?.bind fun names => s.tree.walk? q names

/-- What comes of looking for the attribute that names lead to from `q` on. -/
def arrive (s : Store) (q : Quark) (ns : Spelling) : Except Unresolved Quark :=
  match s.led? q ns with
  | some c => .ok c
  | none => .error .absent

/-- The name that is held at names from the root on. -/
def nameAt? (s : Store) (ns : Spelling) : Option String :=
  (s.led? Quark.root ns).bind fun q => (s.ongoing q).segment?

theorem led?_append (s : Store) (q : Quark) (ns ms : Spelling) :
    s.led? q (ns ++ ms) = (s.led? q ns).bind fun c => s.led? c ms := by
  unfold led?
  rw [Spelling.names?_append]
  cases ns.names? with
  | none => rfl
  | some names =>
      cases ms.names? with
      | none => simp
      | some more => exact s.tree.walk?_append q names more

theorem arrive_append (s : Store) (q : Quark) (ns ms : Spelling) :
    s.arrive q (ns ++ ms) = (s.arrive q ns).bind fun c => s.arrive c ms := by
  unfold arrive
  rw [led?_append]
  cases s.led? q ns with
  | none => rfl
  | some c => rfl

theorem val_lookupNamed (s : Store) (q : Quark) (n : Option String) :
    (s.lookupNamed q n).val = s.arrive q [n] := by
  cases n with
  | none => rfl
  | some name =>
      unfold lookupNamed lookup arrive led?
      simp only [Spelling.names?, Option.map_some, Option.bind_some, Tree.walk?]
      cases s.tree.child? q name with
      | none => rfl
      | some c => rfl

/-- **A name is held at the same place after growing.** What is new holds nothing, so no name comes
of it. -/
theorem nameAt?_of_growsTo {s s' : Store} (hs : s.tracks.size = s.tree.size) (h : s.GrowsTo s')
    (hg : s'.tree.Grounded) (ns : Spelling) : s'.nameAt? ns = s.nameAt? ns := by
  unfold nameAt? led?
  cases ns.names? with
  | none => rfl
  | some names =>
      simp only [Option.bind_some, ongoing, h.track]
      cases hw : s.tree.walk? Quark.root names with
      | some e => rw [h.tree.walk? hw]
      | none =>
          cases hw' : s'.tree.walk? Quark.root names with
          | none => rfl
          | some e =>
              rw [Option.bind_some, track_of_not_contains hs (h.tree.walk?_new hg hw hw')]
              rfl

end Store

namespace Scope

/-- A path spells names in a store.

* A constant spells its name, and an event field what the event has under that name.
* A query spells the name that is held at the names that its path spells, from the root on.
* A location spells what its path spells, in its place; an unknown one has no name. -/
inductive Spells (scope : Scope) (s : Store) : List Locator → Spelling → Prop
  | nil : Spells scope s [] []
  | constant {name : String} {rest : List Locator} {ns : Spelling} :
      Spells scope s rest ns → Spells scope s (.constant name :: rest) (some name :: ns)
  | eventField {name : String} {rest : List Locator} {ns : Spelling} :
      Spells scope s rest ns →
        Spells scope s (.eventField name :: rest) (scope.event.segment? name :: ns)
  | query {path rest : List Locator} {ms ns : Spelling} :
      Spells scope s path ms → Spells scope s rest ns →
        Spells scope s (.query path :: rest) (s.nameAt? ms :: ns)
  | location {name : String} {path rest : List Locator} {ms ns : Spelling} :
      scope.table.path? name = some path → Spells scope s path ms → Spells scope s rest ns →
        Spells scope s (.location name :: rest) (ms ++ ns)
  | unknown {name : String} {rest : List Locator} {ns : Spelling} :
      scope.table.path? name = none → Spells scope s rest ns →
        Spells scope s (.location name :: rest) (none :: ns)

variable {scope : Scope} {s : Store} {path : List Locator} {ns : Spelling}

/-- A path spells something, if no location is inside itself. -/
theorem exists_spells (ht : scope.table.check = .ok ()) (s : Store) (path : List Locator) :
    ∃ ns, scope.Spells s path ns := by
  induction path using Table.path_induction (h := ht) with
  | nil => exact ⟨[], .nil⟩
  | constant name rest ih =>
      obtain ⟨ns, h⟩ := ih
      exact ⟨_, .constant h⟩
  | eventField name rest ih =>
      obtain ⟨ns, h⟩ := ih
      exact ⟨_, .eventField h⟩
  | query path rest ihp ih =>
      obtain ⟨ms, hp⟩ := ihp
      obtain ⟨ns, h⟩ := ih
      exact ⟨_, .query hp h⟩
  | location name rest ihp ih =>
      obtain ⟨ns, h⟩ := ih
      cases hp : scope.table.path? name with
      | none => exact ⟨_, .unknown hp h⟩
      | some path =>
          obtain ⟨ms, hm⟩ := ihp path hp
          exact ⟨_, .location hp hm h⟩

namespace Spells

/-- A path spells nothing else. -/
theorem unique (h : scope.Spells s path ns) {ms : Spelling} (hm : scope.Spells s path ms) :
    ms = ns := by
  induction h generalizing ms with
  | nil =>
      cases hm
      rfl
  | constant _ ih =>
      cases hm with
      | constant hm => rw [ih hm]
  | eventField _ ih =>
      cases hm with
      | eventField hm => rw [ih hm]
  | query _ _ ihp ih =>
      cases hm with
      | query hp hm => rw [ihp hp, ih hm]
  | location hp _ _ ihp ih =>
      cases hm with
      | location hp' hpm hm =>
          obtain rfl := Option.some.inj (hp.symm.trans hp')
          rw [ihp hpm, ih hm]
      | unknown hp' _ => rw [hp] at hp'; cases hp'
  | unknown hp _ ih =>
      cases hm with
      | location hp' _ _ => rw [hp] at hp'; cases hp'
      | unknown _ hm => rw [ih hm]

/-- The store only counts by the names that it holds. -/
theorem congr {s' : Store} (h : scope.Spells s path ns)
    (hname : ∀ ns, s'.nameAt? ns = s.nameAt? ns) : scope.Spells s' path ns := by
  induction h with
  | nil => exact .nil
  | constant _ ih => exact .constant ih
  | eventField _ ih => exact .eventField ih
  | query _ _ ihp ih =>
      rw [← hname]
      exact .query ihp ih
  | location hp _ _ ihp ih => exact .location hp ihp ih
  | unknown hp _ ih => exact .unknown hp ih

/-- **A path spells after growing what it spelled before.** -/
theorem of_growsTo {s' : Store} (h : scope.Spells s path ns)
    (hs : s.tracks.size = s.tree.size) (hg : s.GrowsTo s') (hs' : s'.tree.Grounded) :
    scope.Spells s' path ns :=
  h.congr (Store.nameAt?_of_growsTo hs hg hs')

end Spells

/-! ### Finding -/

theorem val_find_cons_of_arrive {q : Quark} {l : Locator} {rest : List Locator} {ms ns : Spelling}
    (hl : (scope.findOne s q l).val = s.arrive q ms)
    (hrest : ∀ c, (scope.find s c rest).val = s.arrive c ns) :
    (scope.find s q (l :: rest)).val = s.arrive q (ms ++ ns) := by
  rw [find_cons, Observed.val_onward, hl, Store.arrive_append]
  congr 1
  exact funext hrest

/-- **To find is to walk along the names that the path spells.** -/
theorem Spells.val_find (ht : scope.table.check = .ok ()) (h : scope.Spells s path ns) (q : Quark) :
    (scope.find s q path).val = s.arrive q ns := by
  induction h generalizing q with
  | nil => rfl
  | @constant name rest ns _ ih =>
      have hl : (scope.findOne s q (.constant name)).val = s.arrive q [some name] := by
        rw [findOne_constant, ← Store.val_lookupNamed]
        rfl
      exact val_find_cons_of_arrive hl ih
  | @eventField name rest ns _ ih =>
      have hl : (scope.findOne s q (.eventField name)).val =
          s.arrive q [scope.event.segment? name] := by
        rw [findOne_eventField, Observed.val_bind, Store.val_lookupNamed]
        rfl
      exact val_find_cons_of_arrive hl ih
  | @query path rest ms ns _ _ ihp ih =>
      have hl : (scope.findOne s q (.query path)).val = s.arrive q [s.nameAt? ms] := by
        rw [findOne_query, Observed.val_onward, ihp, ← Store.val_lookupNamed, Store.nameAt?,
          Store.arrive]
        cases s.led? Quark.root ms with
        | none => rfl
        | some target => rfl
      exact val_find_cons_of_arrive hl ih
  | @location name path rest ms ns hp _ _ ihp ih =>
      have hl : (scope.findOne s q (.location name)).val = s.arrive q ms := by
        rw [findOne_location ht, hp]
        exact ihp q
      exact val_find_cons_of_arrive hl ih
  | @unknown name rest ns hp _ ih =>
      have hl : (scope.findOne s q (.location name)).val = s.arrive q [none] := by
        rw [findOne_location ht, hp]
        simp only [unexpanded_of_not_defines (Table.defines_eq_false_iff.mpr hp)]
        rfl
      exact val_find_cons_of_arrive hl ih

/-- What is read is what is held where the path leads. -/
theorem Spells.val_valueAt_eq (ht : scope.table.check = .ok ()) (h : scope.Spells s path ns) :
    (scope.valueAt s path).val = (s.led? Quark.root ns).map s.ongoing := by
  unfold valueAt
  rw [Observed.val_bind, h.val_find ht, Store.arrive]
  cases s.led? Quark.root ns with
  | none => rfl
  | some target => rfl

/-- A query comes to the name that is held where its path leads. -/
theorem Spells.val_valueAt (ht : scope.table.check = .ok ()) (h : scope.Spells s path ns) :
    (scope.valueAt s path).val.bind Value.segment? = s.nameAt? ns := by
  rw [h.val_valueAt_eq ht, Store.nameAt?]
  cases s.led? Quark.root ns with
  | none => rfl
  | some target => rfl

/-! ### Growing -/

end Scope

/-- Growing from `q` on came to the end of the names and planted what was missing on the way, up to
the first name that is undefined. -/
structure Growth.Follows (g : Growth) (s : Store) (q : Quark) (ns : Spelling) : Prop where
  ok : ∀ names, ns.names? = some names → g.result = .ok (s.tree.plant q names).1
  error : ns.names? = none → g.result = .error .absent
  store : g.store = s.planted q ns.leading

namespace Growth.Follows

variable {g : Growth} {s : Store} {q : Quark} {ns : Spelling}

/-- Growing comes to where the names lead afterwards. -/
theorem result_eq_ok_iff (h : g.Follows s q ns) (c : Quark) :
    g.result = .ok c ↔ ∃ names, ns.names? = some names ∧ g.store.tree.walk? q names = some c := by
  rw [h.store]
  constructor
  · intro hc
    cases hn : ns.names? with
    | none =>
        rw [h.error hn] at hc
        cases hc
    | some names =>
        refine ⟨names, rfl, ?_⟩
        rw [h.ok names hn] at hc
        rw [Spelling.leading_of_names? hn, ← Except.ok.inj hc]
        exact s.tree.walk?_plant q names
  · rintro ⟨names, hn, hw⟩
    rw [Spelling.leading_of_names? hn] at hw
    rw [h.ok names hn]
    exact congrArg _ (Option.some.inj ((s.tree.walk?_plant q names).symm.trans hw))

theorem exists_ok_iff (h : g.Follows s q ns) :
    (∃ c, g.result = .ok c) ↔ ns.names?.isSome = true := by
  constructor
  · rintro ⟨c, hc⟩
    obtain ⟨names, hn, -⟩ := (h.result_eq_ok_iff c).mp hc
    rw [hn]
    rfl
  · intro hn
    obtain ⟨names, hn⟩ := Option.isSome_iff_exists.mp hn
    exact ⟨_, h.ok names hn⟩

end Growth.Follows

namespace Store

/-- To grow a child is to follow its name. -/
theorem grow_follows {s : Store} (hs : s.tracks.size = s.tree.size) {q : Quark}
    (hq : q = Quark.root ∨ s.tree.contains q = true) (name : Observed (Option String)) :
    (s.grow q name).Follows s q [name.val] := by
  unfold grow
  cases name.val with
  | none =>
      refine ⟨fun names h => ?_, fun _ => rfl, ?_⟩
      · cases h
      · exact (withTree_self hs).symm
  | some segment =>
      simp only [create_eq_planted hq]
      refine ⟨fun names h => ?_, fun h => ?_, rfl⟩
      · obtain rfl := Option.some.inj h
        rfl
      · cases h

end Store

namespace Scope

variable {scope : Scope} {s : Store} {path : List Locator} {ns : Spelling}

theorem grow_cons_follows (hs : s.Reachable) {q : Quark}
    (hq : q = Quark.root ∨ s.tree.contains q = true) {l : Locator} {rest : List Locator}
    {ms : Spelling} (hl : (scope.growOne s q l).Follows s q ms)
    (hrest : ∀ s', s'.Reachable → s.GrowsTo s' →
      ∀ c, (c = Quark.root ∨ s'.tree.contains c = true) → (scope.grow s' c rest).Follows s' c ns) :
    (scope.grow s q (l :: rest)).Follows s q (ms ++ ns) := by
  cases hm : ms.names? with
  | none =>
      have hstop : scope.grow s q (l :: rest) = scope.growOne s q l := by
        rw [grow_cons, Growth.onward, hl.error hm]
      rw [hstop]
      refine ⟨fun names h => ?_, fun _ => hl.error hm, ?_⟩
      · rw [Spelling.names?_append, hm] at h
        cases h
      · rw [hl.store, Spelling.leading_append_of_none hm]
  | some names =>
      have hresult : (scope.grow s q (l :: rest)).result =
          (scope.grow (scope.growOne s q l).store (s.tree.plant q names).1 rest).result := by
        rw [grow_cons, Growth.onward, hl.ok names hm]
      have hstore : (scope.grow s q (l :: rest)).store =
          (scope.grow (scope.growOne s q l).store (s.tree.plant q names).1 rest).store := by
        rw [grow_cons, Growth.onward, hl.ok names hm]
      have hleading := Spelling.leading_of_names? hm
      obtain ⟨hreach, hend⟩ := hs.planted hq names
      rw [hl.store, hleading] at hresult hstore
      have hf := hrest _ hreach (s.growsTo_planted q names) _ hend
      refine ⟨fun all h => ?_, fun h => ?_, ?_⟩
      · rw [Spelling.names?_append, hm] at h
        obtain ⟨more, hmore, rfl⟩ := Option.map_eq_some_iff.mp h
        rw [hresult, hf.ok more hmore, Tree.plant_append]
        rfl
      · rw [Spelling.names?_append, hm] at h
        rw [hresult, hf.error (Option.map_eq_none_iff.mp h)]
      · rw [hstore, hf.store, Spelling.leading_append_of_names? hm,
          Store.planted_append hs.tracks_size]

/-- **To grow is to plant the names that the path spells before.** -/
theorem Spells.grow_follows (ht : scope.table.check = .ok ()) (h : scope.Spells s path ns)
    (hs : s.Reachable) {s' : Store} (hs' : s'.Reachable) (hg : s.GrowsTo s') {q : Quark}
    (hq : q = Quark.root ∨ s'.tree.contains q = true) :
    (scope.grow s' q path).Follows s' q ns := by
  induction h generalizing s' q with
  | nil =>
      refine ⟨fun names h => ?_, fun h => ?_, (Store.withTree_self hs'.tracks_size).symm⟩
      · obtain rfl := Option.some.inj h
        rfl
      · cases h
  | @constant name rest ns _ ih =>
      have hl : (scope.growOne s' q (.constant name)).Follows s' q [some name] :=
        Store.grow_follows hs'.tracks_size hq (pure (some name))
      exact grow_cons_follows hs' hq hl fun s₂ h₂ hg₂ c hc => ih h₂ (hg.trans hg₂) hc
  | @eventField name rest ns _ ih =>
      have hl : (scope.growOne s' q (.eventField name)).Follows s' q
          [scope.event.segment? name] :=
        Store.grow_follows hs'.tracks_size hq (scope.event.nameIn name)
      exact grow_cons_follows hs' hq hl fun s₂ h₂ hg₂ c hc => ih h₂ (hg.trans hg₂) hc
  | @query path rest ms ns hp _ _ ih =>
      -- the query is spelled in a store that is half grown
      have hname : (scope.valueAt s' path).val.bind Value.segment? = s.nameAt? ms := by
        rw [(hp.of_growsTo hs.tracks_size hg hs'.grounded).val_valueAt ht]
        exact Store.nameAt?_of_growsTo hs.tracks_size hg hs'.grounded ms
      have hl : (scope.growOne s' q (.query path)).Follows s' q [s.nameAt? ms] := by
        rw [← hname]
        exact Store.grow_follows hs'.tracks_size hq
          (do pure ((← scope.valueAt s' path).bind Value.segment?))
      exact grow_cons_follows hs' hq hl fun s₂ h₂ hg₂ c hc => ih h₂ (hg.trans hg₂) hc
  | @location name path rest ms ns hp _ _ ihp ih =>
      have hl : (scope.growOne s' q (.location name)).Follows s' q ms := by
        rw [growOne_location ht, hp]
        exact ihp hs' hg hq
      exact grow_cons_follows hs' hq hl fun s₂ h₂ hg₂ c hc => ih h₂ (hg.trans hg₂) hc
  | @unknown name rest ns hp _ ih =>
      have hl : (scope.growOne s' q (.location name)).Follows s' q [none] := by
        rw [growOne_location ht, hp]
        simp only [ungrown, unexpanded_of_not_defines (Table.defines_eq_false_iff.mpr hp)]
        exact Store.grow_follows hs'.tracks_size hq
          { remarks := [.locationUnknown name], val := none }
      exact grow_cons_follows hs' hq hl fun s₂ h₂ hg₂ c hc => ih h₂ (hg.trans hg₂) hc

theorem Spells.grow_root (ht : scope.table.check = .ok ()) (h : scope.Spells s path ns)
    (hs : s.Reachable) : (scope.grow s Quark.root path).Follows s Quark.root ns :=
  h.grow_follows ht hs hs (.refl s) (.inl rfl)

/-- Growing along a path that is found ends where finding does, and creates nothing. -/
theorem grow_eq_of_find (ht : scope.table.check = .ok ()) (hs : s.Reachable) {q c : Quark}
    (hq : q = Quark.root ∨ s.tree.contains q = true) (hc : (scope.find s q path).val = .ok c) :
    (scope.grow s q path).result = .ok c ∧ (scope.grow s q path).store = s := by
  obtain ⟨ns, h⟩ := exists_spells ht s path
  have hf := h.grow_follows ht hs hs (.refl s) hq
  rw [h.val_find ht, Store.arrive] at hc
  split at hc
  · rename_i d hled
    obtain rfl := Except.ok.inj hc
    obtain ⟨names, hn, hw⟩ := Option.bind_eq_some_iff.mp hled
    have hplant := Tree.plant_of_walk? hw
    refine ⟨?_, ?_⟩
    · rw [hf.ok names hn, hplant]
    · rw [hf.store, Spelling.leading_of_names? hn, Store.planted, hplant,
        Store.withTree_self hs.tracks_size]
  · cases hc

/-! ### Both ways -/

/-- What resolving a path from `q` on comes to, when the path spells `ns` in `s`.

* `find`: the attribute that the names lead to is found, or none.
* `grow`, `grow_ok`, `grow_error`: growing ends where the names lead afterwards, and it comes to an
  end exactly if all are defined.
* `growsTo`, `reachable`, `unwritten`: what is there keeps its quark, name, parent and track, the
  clock stays, and what is new was never written.
* `grown`, `planted`: the names up to the first that is undefined are all there afterwards, and
  nothing that lies elsewhere is new. -/
structure ByNames (scope : Scope) (s : Store) (q : Quark) (path : List Locator) (ns : Spelling) :
    Prop where
  spells : ∀ ms, scope.Spells s path ms ↔ ms = ns
  find : (scope.find s q path).val = s.arrive q ns
  grow : ∀ c, (scope.grow s q path).result = .ok c ↔
    ∃ names, ns.names? = some names ∧ (scope.grow s q path).store.tree.walk? q names = some c
  grow_ok : (∃ c, (scope.grow s q path).result = .ok c) ↔ ns.names?.isSome = true
  grow_error : ns.names? = none → (scope.grow s q path).result = .error .absent
  growsTo : s.GrowsTo (scope.grow s q path).store
  reachable : (scope.grow s q path).store.Reachable
  unwritten : ∀ d, s.tree.contains d = false → (scope.grow s q path).store.track d = {}
  grown : ((scope.grow s q path).store.tree.walk? q ns.leading).isSome = true
  planted : ∀ d, (scope.grow s q path).store.tree.contains d = true → s.tree.contains d = false →
    ∃ n, (scope.grow s q path).store.tree.walk? q (ns.leading.take n) = some d

/-- **A path is resolved by names that are read off the store before.** In every store that calls
lead to, with every table that has passed its check, a path spells one list of names, whatever is
created on the way. To find is to walk along these names, and to grow is to plant those that are
missing, up to the first that is undefined. -/
theorem resolves_byNames (scope : Scope) (ht : scope.table.check = .ok ()) {s : Store}
    (hs : s.Reachable) {q : Quark} (hq : q = Quark.root ∨ s.tree.contains q = true)
    (path : List Locator) : ∃ ns, scope.ByNames s q path ns := by
  obtain ⟨ns, h⟩ := exists_spells ht s path
  have hf := h.grow_follows ht hs hs (.refl s) hq
  have hg : s.GrowsTo (scope.grow s q path).store := by
    rw [hf.store]
    exact s.growsTo_planted q ns.leading
  refine ⟨ns, fun ms => ⟨h.unique, fun hm => hm ▸ h⟩, h.val_find ht q, hf.result_eq_ok_iff,
    hf.exists_ok_iff, hf.error, hg, ?_, ?_, ?_, ?_⟩
  · rw [hf.store]
    exact (hs.planted hq ns.leading).1
  · intro d hd
    rw [hg.track, Store.track_of_not_contains hs.tracks_size hd]
  · rw [hf.store]
    exact Option.isSome_iff_exists.mpr ⟨_, s.tree.walk?_plant q ns.leading⟩
  · rw [hf.store]
    exact fun d hd hnew => s.tree.exists_walk?_of_new q ns.leading hd hnew

/-- A state named after what is held at a location, in a store that has the location but no states:
the query is spelled before `States` is created. -/
theorem resolves_byNames_of_query :
    let scope : Scope := {
      table := .ofList [⟨"Current", [.constant "CPUs", .eventField "cpu"]⟩]
      event := { name := "sched_switch", timestamp := 20, source := some 1 } }
    let s := ({} : Store).callEach [.create .root "CPUs", .create 0 "1",
      .mutate 1 10 (.set (.text "idle"))]
    scope.table.check = .ok () ∧ s.Reachable ∧
      scope.ByNames s .root [.constant "States", .query [.location "Current"]]
        [some "States", some "idle"] := by
  intro scope s
  have hreach : s.Reachable := Store.Reachable.empty.callEach _
  obtain ⟨ns, h⟩ := resolves_byNames scope rfl hreach (.inl rfl)
    [.constant "States", .query [.location "Current"]]
  have hnames : s.nameAt? [some "CPUs", some "1"] = some "idle" := by decide +kernel
  have hpath : scope.table.path? "Current" = some [.constant "CPUs", .eventField "cpu"] := rfl
  have hspells : scope.Spells s [.constant "States", .query [.location "Current"]]
      [some "States", s.nameAt? [some "CPUs", some "1"]] :=
    .constant (.query (.location hpath (.constant (.eventField .nil)) .nil) .nil)
  rw [hnames, h.spells] at hspells
  exact ⟨rfl, hreach, hspells ▸ h⟩

end Scope
end Chronicle
