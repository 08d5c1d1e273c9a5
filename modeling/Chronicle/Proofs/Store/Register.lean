import Chronicle.Keyed
import Chronicle.Proofs.Keyed
import Chronicle.Proofs.Store.Removal
import Chronicle.Proofs.Store.Rendering

/-!
# The tree as a table of names

A tree can be kept so that nothing is searched for: with each attribute the attributes under it, by
their names, and those under the root in a list of their own (`Register`). Every name then stands
twice, with the attribute and with its parent. Both are entered when an attribute is created, and so
they agree (`Register.Keeps`, `Register.Keeps.add`), and the register answers as the tree does
(`Register.Keeps.answers`).

The tree is a table of names (`Tree.Named`): parent and name tell an attribute, names lead from the
root to every attribute and by one way only, and an attribute that is created changes nothing for
the others. A parent is created before what lies under it, so the way up from an attribute ends at
the root (`Register.Keeps.climbs_iff`).
-/

namespace Chronicle

/-! ### A register -/

/-- An attribute in a register: its name, its parent, and the attributes under it by their names. -/
structure Register.Row where
  name : String
  parent : Quark
  children : List (String × Quark) := []

/-- The attributes in order of creation, and those under the root by their names. -/
structure Register where
  rows : Array Register.Row := #[]
  top : List (String × Quark) := []

namespace Register

/-- The name and the parent. -/
def Row.node (e : Row) : Node :=
  ⟨e.name, e.parent⟩

/-- The row of an attribute. -/
def row? (r : Register) (q : Quark) : Option Row :=
  q.toNat?.bind fun i => r.rows[i]?

/-- The name of an attribute. -/
def name? (r : Register) (q : Quark) : Option String :=
  (r.row? q).map Row.name

/-- The parent of an attribute. -/
def parent? (r : Register) (q : Quark) : Option Quark :=
  (r.row? q).map Row.parent

/-- The attributes under `parent`, by their names. -/
def under (r : Register) (parent : Quark) : List (String × Quark) :=
  if parent = Quark.root then r.top else ((r.row? parent).map Row.children).getD []

/-- The attribute of the given name under `parent`. -/
def get? (r : Register) (parent : Quark) (name : String) : Option Quark :=
  Keyed.get? name (r.under parent)

/-- The attribute that names lead to from the root. -/
def walk? (r : Register) (names : List String) : Option Quark :=
  names.foldlM r.get? Quark.root

/-- Enters `q` under its parent, by its name. -/
def enter (r : Register) (parent : Quark) (name : String) (q : Quark) : Register :=
  if parent = Quark.root then { r with top := Keyed.put name q r.top }
  else
    { r with
      rows := r.rows.modify parent.toNat fun e =>
        { e with children := Keyed.put name q e.children } }

/-- A new attribute, entered under its parent. -/
def create (r : Register) (parent : Quark) (name : String) : Register :=
  { r with rows := r.rows.push ⟨name, parent, []⟩ }.enter parent name (Int.ofNat r.rows.size)

/-- The attribute of the given name under `parent`, created if it is not there. -/
def add (r : Register) (parent : Quark) (name : String) :
    Except UnknownParent (Quark × Register) :=
  if parent = Quark.root ∨ (r.row? parent).isSome then
    match r.get? parent name with
    | some q => .ok (q, r)
    | none => .ok (Int.ofNat r.rows.size, r.create parent name)
  else .error ⟨parent⟩

/-- The register after attributes were created in order; what is refused changes nothing. -/
def addEach (r : Register) (added : List (Quark × String)) : Register :=
  added.foldl (fun r a => match r.add a.1 a.2 with
    | .ok (_, after) => after
    | .error _ => r) r

/-- The names on the way up from `q`, its own name first: that of an attribute, and then those on
the way up from its parent. -/
inductive Climbs (r : Register) : Quark → List String → Prop
  | stop {q : Quark} : r.row? q = none → Climbs r q []
  | up {q : Quark} {e : Row} {names : List String} :
    r.row? q = some e → Climbs r e.parent names → Climbs r q (e.name :: names)

end Register

namespace Tree

/-- The tree after attributes were created in order; what is refused changes nothing. -/
def addEach (t : Tree) (added : List (Quark × String)) : Tree :=
  added.foldl (fun t a => match t.add a.1 a.2 with
    | .ok (_, after) => after
    | .error _ => t) t

variable {t : Tree} {p q : Quark} {name : String}

/-! ### Attributes and their names -/

/-- **Parent and name tell an attribute.** -/
theorem child?_eq_some_iff (ht : t.Rooted) :
    t.child? p name = some q ↔ t.node? q = some ⟨name, p⟩ := by
  refine ⟨node?_of_child?, fun hnode => ?_⟩
  have hq : t.contains q = true := by rw [contains, hnode]; rfl
  obtain ⟨names, hwalk⟩ := ht q hq
  rcases List.eq_nil_or_concat names with rfl | ⟨init, last, rfl⟩
  · exact absurd (Option.some.inj hwalk).symm (ne_root_of_contains hq)
  · rw [List.concat_eq_append, walk?_concat] at hwalk
    obtain ⟨e, -, hchild⟩ := Option.bind_eq_some_iff.mp hwalk
    obtain ⟨rfl, rfl⟩ := Node.mk.inj (Option.some.inj ((node?_of_child? hchild).symm.trans hnode))
    exact hchild

theorem lineage_of_not_contains (h : t.contains q = false) : t.lineage q = [] := by
  have hparent : t.parent? q = none := by
    rw [parent?, Option.map_eq_none_iff]
    exact Option.not_isSome_iff_eq_none.mp (Bool.eq_false_iff.mp h)
  rw [lineage]
  cases t.size with
  | zero => rfl
  | succ n => rw [lineageWithin, hparent]

theorem path_of_not_contains (h : t.contains q = false) : t.path q = [] := by
  rw [path, lineage_of_not_contains h]
  rfl

/-- The path of an attribute is that of its parent, and its name. -/
theorem path_eq_append (ht : t.Grounded) (h : t.node? q = some ⟨name, p⟩) :
    t.path q = t.path p ++ [name] := by
  have hparent : t.parent? q = some p := by rw [parent?, h]; rfl
  have hname : t.name? q = some name := by rw [name?, h]; rfl
  rw [path, lineage_eq_cons ht hparent, List.reverse_cons, List.filterMap_append, ← path]
  simp [hname]

theorem node?_push (t : Tree) (node : Node) (q : Quark) :
    (⟨t.nodes.push node⟩ : Tree).node? q =
      if q = Int.ofNat t.size then some node else t.node? q := by
  cases q with
  | negSucc i => rfl
  | ofNat i =>
      simp only [node?, Int.toNat?, Option.bind_some, Array.getElem?_push, Int.ofNat.injEq, size]

/-- What comes of `add`: the attribute that is there, or a new one if it can have that parent, or a
refusal. -/
theorem add_cases (t : Tree) (p : Quark) (name : String) :
    (¬(p = Quark.root ∨ t.contains p = true) ∧ t.add p name = .error ⟨p⟩) ∨
      (p = Quark.root ∨ t.contains p = true) ∧
        ((∃ q, t.child? p name = some q ∧ t.add p name = .ok (q, t)) ∨
          t.child? p name = none ∧
            t.add p name = .ok (Int.ofNat t.size, ⟨t.nodes.push ⟨name, p⟩⟩)) := by
  by_cases hp : p = Quark.root ∨ t.contains p = true
  · refine .inr ⟨hp, ?_⟩
    rw [add, if_pos hp]
    cases hc : t.child? p name with
    | some q => exact .inl ⟨q, rfl, rfl⟩
    | none => exact .inr ⟨rfl, rfl⟩
  · exact .inl ⟨hp, by rw [add, if_neg hp]⟩

/-- What every new attribute keeps holds of the tree in the end. -/
theorem addEach_induction {P : Tree → Prop} (ht : P t)
    (hpush : ∀ (t : Tree) (p : Quark) (name : String), P t →
      (p = Quark.root ∨ t.contains p = true) → t.child? p name = none →
        P ⟨t.nodes.push ⟨name, p⟩⟩) (added : List (Quark × String)) : P (t.addEach added) := by
  induction added generalizing t with
  | nil => exact ht
  | cons a rest ih =>
      rw [addEach, List.foldl_cons]
      rcases t.add_cases a.1 a.2 with ⟨-, hadd⟩ | ⟨hp, ⟨q, -, hadd⟩ | ⟨hnew, hadd⟩⟩
      · rw [hadd]
        exact ih ht
      · rw [hadd]
        exact ih ht
      · rw [hadd]
        exact ih (hpush t a.1 a.2 ht hp hnew)

theorem rooted_addEach (ht : t.Rooted) (added : List (Quark × String)) :
    (t.addEach added).Rooted :=
  addEach_induction ht (fun _ _ _ ht hp hnew => rooted_push ht hp hnew) added

theorem grounded_addEach (ht : t.Grounded) (added : List (Quark × String)) :
    (t.addEach added).Grounded :=
  addEach_induction ht (fun _ _ name ht hp _ => grounded_push ht hp name) added

theorem rooted_empty : ({} : Tree).Rooted := by
  intro q hq
  obtain ⟨i, hi, -⟩ := contains_iff.mp hq
  cases hi

theorem grounded_empty : ({} : Tree).Grounded := by
  intro i node hi
  cases hi

/-- What a tree gains by an attribute that is created: itself, and nothing else. -/
structure Gains (t u : Tree) (p : Quark) (name : String) : Prop where
  size : u.size = t.size + 1
  new : u.node? (Int.ofNat t.size) = some ⟨name, p⟩
  kept : ∀ q, t.contains q = true → u.name? q = t.name? q ∧ u.parent? q = t.parent? q
  child : u.child? p name = some (Int.ofNat t.size)
  others : ∀ o other, ¬(o = p ∧ other = name) → u.child? o other = t.child? o other

/-- A tree is a table of names.

* `quarks`: the quarks are the numbers below the size of the tree, in order.
* `parent`: a parent is the root or an attribute that was created earlier.
* `child`: an attribute is found by its parent and its name, and nothing else is.
* `path`, `path_of_unknown`: the path of an attribute is that of its parent, and its name; that of
  the root and of what is no attribute is empty.
* `walk`, `walk_only`: the names on its path lead to an attribute, and no others do.
* `known`: an attribute that is there is not created again.
* `new`: one that is not there is created under the root or an attribute that is there, with the
  next quark, and changes nothing for the others.
* `refused`: nothing is created elsewhere. -/
structure Named (t : Tree) : Prop where
  quarks : t.quarks.Pairwise (· < ·) ∧
    ∀ q, (q ∈ t.quarks ↔ 0 ≤ q ∧ q < t.size) ∧ (t.contains q = true ↔ q ∈ t.quarks)
  parent : ∀ q p, t.parent? q = some p → p < q ∧ (p = Quark.root ∨ t.contains p = true)
  child : ∀ p name q, t.child? p name = some q ↔
    t.contains q = true ∧ t.parent? q = some p ∧ t.name? q = some name
  path : ∀ q p name, t.parent? q = some p → t.name? q = some name → t.path q = t.path p ++ [name]
  path_of_unknown : ∀ q, t.contains q = false → t.path q = []
  walk : ∀ q, t.contains q = true → t.walk? Quark.root (t.path q) = some q
  walk_only : ∀ names q, names ≠ [] → t.walk? Quark.root names = some q → names = t.path q
  known : ∀ p name q, t.child? p name = some q → t.add p name = .ok (q, t)
  new : ∀ p name, p = Quark.root ∨ t.contains p = true → t.child? p name = none →
    ∃ u, t.add p name = .ok (Int.ofNat t.size, u) ∧ t.Gains u p name
  refused : ∀ p name, ¬(p = Quark.root ∨ t.contains p = true) → t.add p name = .error ⟨p⟩

theorem node?_size (t : Tree) : t.node? (Int.ofNat t.size) = none :=
  Array.getElem?_eq_none (Nat.le_refl _)

theorem gains_push (ht : t.Rooted) (hp : p = Quark.root ∨ t.contains p = true)
    (hnew : t.child? p name = none) : t.Gains ⟨t.nodes.push ⟨name, p⟩⟩ p name where
  size := by simp [size]
  new := by rw [node?_push, if_pos rfl]
  kept q hq := by
    have hne : q ≠ Int.ofNat t.size := by
      rintro rfl
      exact Nat.lt_irrefl _ (contains_ofNat.mp hq)
    simp only [name?, parent?, node?_push, if_neg hne, and_self]
  child := child?_push hnew
  others o other hne := by
    refine Option.ext fun q => ?_
    rw [child?_eq_some_iff (rooted_push ht hp hnew), child?_eq_some_iff ht, node?_push]
    by_cases hq : q = Int.ofNat t.size
    · have hnode : ¬some (⟨name, p⟩ : Node) = some ⟨other, o⟩ := fun h =>
        hne ⟨(Node.mk.inj (Option.some.inj h)).2.symm, (Node.mk.inj (Option.some.inj h)).1.symm⟩
      rw [if_pos hq, hq, node?_size]
      exact iff_of_false hnode (Option.some_ne_none _).symm
    · rw [if_neg hq]

theorem node?_eq_some_iff :
    t.node? q = some ⟨name, p⟩ ↔
      t.contains q = true ∧ t.parent? q = some p ∧ t.name? q = some name := by
  rw [contains, parent?, name?]
  cases t.node? q with
  | none => simp
  | some node => cases node; simp [and_comm]

/-- A tree whose attributes stand under earlier ones, and to each of which names lead, is a table of
names. -/
theorem named (ht : t.Rooted) (hg : t.Grounded) : t.Named where
  quarks := by
    refine ⟨t.pairwise_quarks, fun q => ⟨?_, mem_quarks.symm⟩⟩
    rw [mem_quarks, contains_iff]
    constructor
    · rintro ⟨i, hi, rfl⟩
      exact ⟨Int.natCast_nonneg i, Int.ofNat_lt.mpr hi⟩
    · rintro ⟨hq, hlt⟩
      exact ⟨q.toNat, (Int.toNat_lt hq).mpr hlt, (Int.toNat_of_nonneg hq).symm⟩
  parent _ _ h := hg.parent?_lt h
  child p name q := (child?_eq_some_iff ht).trans node?_eq_some_iff
  path q p name hp hn :=
    path_eq_append hg (node?_eq_some_iff.mpr ⟨contains_of_parent? hp, hp, hn⟩)
  path_of_unknown _ := path_of_not_contains
  walk q hq := by
    obtain ⟨names, hnames⟩ := ht q hq
    rwa [path_of_walk? hg hnames]
  walk_only names q _ h := (path_of_walk? hg h).symm
  known p name q hc := by
    rcases t.add_cases p name with ⟨hp, -⟩ | ⟨-, ⟨d, hd, hadd⟩ | ⟨hnone, -⟩⟩
    · obtain ⟨i, node, rfl, hi, rfl, -⟩ := exists_node_of_child? hc
      have hparent : t.parent? (Int.ofNat i) = some node.parent := congrArg (Option.map _) hi
      exact absurd (hg.parent?_lt hparent).2 hp
    · rw [hadd, Option.some.inj (hd.symm.trans hc)]
    · rw [hnone] at hc
      cases hc
  new p name hp hnone := by
    refine ⟨_, ?_, gains_push ht hp hnone⟩
    rw [add, if_pos hp, hnone]
  refused p name hp := by rw [add, if_neg hp]

end Tree

/-! ### Names that are entered twice -/

namespace Register

/-- A register keeps a tree: its rows are the attributes of the tree, and an attribute is entered
under its parent, by its name, and nowhere else. -/
structure Keeps (r : Register) (t : Tree) : Prop where
  size : r.rows.size = t.size
  node : ∀ q, (r.row? q).map Row.node = t.node? q
  mem_under : ∀ p name q, (name, q) ∈ r.under p ↔ t.node? q = some ⟨name, p⟩
  nodup : ∀ p, ((r.under p).map Prod.fst).Nodup

variable {r : Register} {t : Tree} {p q : Quark} {name : String}

theorem row?_push (r : Register) (e : Row) (q : Quark) :
    ({ r with rows := r.rows.push e } : Register).row? q =
      if q = Int.ofNat r.rows.size then some e else r.row? q := by
  cases q with
  | negSucc i => rfl
  | ofNat i =>
      simp only [row?, Int.toNat?, Option.bind_some, Array.getElem?_push, Int.ofNat.injEq]

theorem row?_modify (r : Register) (i : Nat) (f : Row → Row) (q : Quark) :
    ({ r with rows := r.rows.modify i f } : Register).row? q =
      if q = Int.ofNat i then (r.row? q).map f else r.row? q := by
  cases q with
  | negSucc j => rfl
  | ofNat j =>
      simp only [row?, Int.toNat?, Option.bind_some, Array.getElem?_modify, Int.ofNat.injEq,
        eq_comm (a := i)]

/-- To enter an attribute under its parent changes the name and the parent of none. -/
theorem node_enter (r : Register) (p : Quark) (name : String) (q d : Quark) :
    ((r.enter p name q).row? d).map Row.node = (r.row? d).map Row.node := by
  unfold enter
  split
  · rfl
  · rw [row?_modify]
    split
    · rw [Option.map_map]
      rfl
    · rfl

/-- Nothing stands under an attribute that is new. -/
theorem under_push (r : Register) (name : String) (p d : Quark) :
    ({ r with rows := r.rows.push ⟨name, p, []⟩ } : Register).under d = r.under d := by
  unfold under
  rw [row?_push]
  by_cases hd : d = Int.ofNat r.rows.size
  · have hnone : r.row? d = none := by
      rw [hd]
      exact Array.getElem?_eq_none (Nat.le_refl _)
    rw [if_pos hd, hnone]
    rfl
  · rw [if_neg hd]

/-- An attribute is entered under its parent and nowhere else. -/
theorem under_enter (hp : p = Quark.root ∨ (r.row? p).isSome = true) (name : String) (q d : Quark) :
    (r.enter p name q).under d = if d = p then Keyed.put name q (r.under d) else r.under d := by
  unfold enter
  split
  · next hroot =>
    subst hroot
    by_cases hd : d = Quark.root
    · simp only [under, if_pos hd]
    · simp only [under, if_neg hd, row?]
  · next hroot =>
    obtain ⟨e, he⟩ := Option.isSome_iff_exists.mp (hp.resolve_left hroot)
    have hback : Int.ofNat p.toNat = p := by
      cases p with
      | ofNat i => rfl
      | negSucc i => cases he
    unfold under
    rw [row?_modify, hback]
    by_cases hd : d = p
    · subst hd
      rw [if_neg hroot, if_neg hroot, if_pos rfl, if_pos rfl, he]
      rfl
    · rw [if_neg hd, if_neg hd]

theorem size_create (r : Register) (p : Quark) (name : String) :
    (r.create p name).rows.size = r.rows.size + 1 := by
  unfold create enter
  split <;> simp

theorem node_create (r : Register) (p : Quark) (name : String) (d : Quark) :
    ((r.create p name).row? d).map Row.node =
      if d = Int.ofNat r.rows.size then some ⟨name, p⟩ else (r.row? d).map Row.node := by
  rw [create, node_enter, row?_push]
  split <;> rfl

/-- A new attribute comes last under its parent. -/
theorem under_create (hp : p = Quark.root ∨ (r.row? p).isSome = true)
    (hname : name ∉ (r.under p).map Prod.fst) (d : Quark) :
    (r.create p name).under d =
      r.under d ++ if d = p then [(name, Int.ofNat r.rows.size)] else [] := by
  have hpushed : p = Quark.root ∨
      (({ r with rows := r.rows.push ⟨name, p, []⟩ } : Register).row? p).isSome = true := by
    refine hp.imp_right fun hc => ?_
    rw [row?_push]
    split
    · rfl
    · exact hc
  rw [create, under_enter hpushed, under_push]
  split
  · next hd => rw [hd, Keyed.put_of_not_mem hname]
  · rw [List.append_nil]

theorem Keeps.contains_eq (h : r.Keeps t) (q : Quark) : (r.row? q).isSome = t.contains q := by
  rw [Tree.contains, ← h.node, Option.isSome_map]

/-- **Attributes are found where they are found in the tree.** -/
theorem Keeps.get?_eq (h : r.Keeps t) (ht : t.Rooted) (p : Quark) (name : String) :
    r.get? p name = t.child? p name := by
  refine Option.ext fun q => ?_
  rw [get?, Keyed.get?_eq_some_iff (h.nodup p), h.mem_under, Tree.child?_eq_some_iff ht]

theorem keeps_empty : ({} : Register).Keeps {} where
  size := rfl
  node q := by cases q <;> rfl
  mem_under p name q := by
    have hunder : ({} : Register).under p = [] := by
      rw [under]
      split
      · rfl
      · cases p <;> rfl
    have hnode : ({} : Tree).node? q = none := by cases q <;> rfl
    simp [hunder, hnode]
  nodup p := by
    rw [under]
    split
    · exact .nil
    · cases p <;> exact .nil

/-- A register with a new attribute keeps the larger tree. -/
theorem Keeps.create (h : r.Keeps t) (ht : t.Rooted) (hp : p = Quark.root ∨ t.contains p = true)
    (hnew : t.child? p name = none) : (r.create p name).Keeps ⟨t.nodes.push ⟨name, p⟩⟩ := by
  have hname : name ∉ (r.under p).map Prod.fst :=
    Keyed.not_mem_of_get?_eq_none ((h.get?_eq ht p name).trans hnew)
  have hunder := under_create (hp.imp_right fun hc => (h.contains_eq p).trans hc) hname
  rw [h.size] at hunder
  constructor
  · rw [size_create, h.size]
    simp [Tree.size]
  · intro q
    rw [node_create, Tree.node?_push, h.size, h.node]
  · intro d other q
    have hadded : (other, q) ∈ (if d = p then [(name, Int.ofNat t.size)] else []) ↔
        q = Int.ofNat t.size ∧ other = name ∧ d = p := by
      by_cases hd : d = p
      · rw [if_pos hd, List.mem_singleton, Prod.mk.injEq]
        exact ⟨fun h => ⟨h.2, h.1, hd⟩, fun h => ⟨h.2.1, h.1⟩⟩
      · rw [if_neg hd]
        exact ⟨fun h => absurd h List.not_mem_nil, fun h => absurd h.2.2 hd⟩
    rw [hunder, List.mem_append, h.mem_under, hadded, Tree.node?_push]
    by_cases hq : q = Int.ofNat t.size
    · rw [if_pos hq, hq, t.node?_size, Option.some.injEq, Node.mk.injEq]
      simp [eq_comm]
    · rw [if_neg hq]
      simp only [hq, false_and, or_false]
  · intro d
    rw [hunder, List.map_append]
    split
    · next hd =>
      rw [hd, List.nodup_append]
      refine ⟨h.nodup p, by simp, fun a ha b hb hab => hname ?_⟩
      obtain rfl : b = name := by simpa using hb
      rwa [← hab]
    · simpa using h.nodup d

/-- **To create an attribute comes to the same in a register and in the tree that it keeps.** -/
theorem Keeps.add (h : r.Keeps t) (ht : t.Rooted) (p : Quark) (name : String) :
    (r.add p name = .error ⟨p⟩ ∧ t.add p name = .error ⟨p⟩) ∨
      ∃ q r' t', r.add p name = .ok (q, r') ∧ t.add p name = .ok (q, t') ∧ r'.Keeps t' := by
  unfold Register.add
  rw [h.contains_eq, h.get?_eq ht]
  rcases t.add_cases p name with ⟨hp, hadd⟩ | ⟨hp, ⟨q, hc, hadd⟩ | ⟨hnew, hadd⟩⟩
  · exact .inl ⟨if_neg hp, hadd⟩
  · rw [if_pos hp, hc]
    exact .inr ⟨q, r, t, rfl, hadd, h⟩
  · rw [if_pos hp, hnew]
    refine .inr ⟨_, _, _, rfl, ?_, h.create ht hp hnew⟩
    rw [hadd, h.size]

theorem Keeps.addEach (h : r.Keeps t) (ht : t.Rooted) (added : List (Quark × String)) :
    (r.addEach added).Keeps (t.addEach added) := by
  induction added generalizing r t with
  | nil => exact h
  | cons a rest ih =>
      have hnext := t.rooted_addEach ht [a]
      rw [Register.addEach, Tree.addEach, List.foldl_cons, List.foldl_cons]
      rw [Tree.addEach, List.foldl_cons, List.foldl_nil] at hnext
      rcases h.add ht a.1 a.2 with ⟨hr, hadd⟩ | ⟨q, r', t', hr, hadd, hkeeps⟩
      · rw [hr, hadd]
        exact ih h ht
      · rw [hadd] at hnext
        rw [hr, hadd]
        exact ih hkeeps hnext

/-! ### The way up -/

/-- The way up from anywhere comes to an end. -/
theorem Keeps.exists_climbs (h : r.Keeps t) (ht : t.Grounded) (q : Quark) :
    ∃ names, r.Climbs q names := by
  have hstop : ∀ d, t.contains d = false → ∃ names, r.Climbs d names := fun d hd =>
    ⟨[], .stop (Option.not_isSome_iff_eq_none.mp (by rw [h.contains_eq, hd]; exact nofun))⟩
  cases hq : t.contains q with
  | false => exact hstop q hq
  | true =>
      obtain ⟨i, -, rfl⟩ := Tree.contains_iff.mp hq
      -- the parent of an attribute is the root or was created earlier
      induction i using Nat.strongRecOn with
      | ind i ih =>
          obtain ⟨e, he⟩ := Option.isSome_iff_exists.mp ((h.contains_eq _).trans hq)
          have hnode : t.node? (Int.ofNat i) = some e.node := by
            rw [← h.node, he]
            rfl
          have hparent : t.parent? (Int.ofNat i) = some e.parent := by
            rw [Tree.parent?, hnode]
            rfl
          obtain ⟨names, hnames⟩ : ∃ names, r.Climbs e.parent names := by
            obtain ⟨hlt, hroot | hcontains⟩ := ht.parent?_lt hparent
            · rw [hroot]
              exact hstop _ t.not_contains_root
            · obtain ⟨j, -, hj⟩ := Tree.contains_iff.mp hcontains
              rw [hj] at hlt hcontains ⊢
              exact ih j (Int.ofNat_lt.mp hlt) hcontains
          exact ⟨e.name :: names, .up he hnames⟩

/-- **The way up from an attribute is its path, from its end.** -/
theorem Keeps.climbs_iff (h : r.Keeps t) (ht : t.Grounded) {names : List String} :
    r.Climbs q names ↔ names = (t.path q).reverse := by
  have hpath : ∀ {d names}, r.Climbs d names → names = (t.path d).reverse := by
    intro d names hclimbs
    induction hclimbs with
    | stop hnone =>
        rw [Tree.path_of_not_contains (by rw [← h.contains_eq, hnone]; rfl)]
        rfl
    | @up d e names he _ ih =>
        have hnode : t.node? d = some ⟨e.name, e.parent⟩ := by
          rw [← h.node, he]
          rfl
        rw [Tree.path_eq_append ht hnode, List.reverse_append, ← ih]
        rfl
  refine ⟨hpath, fun heq => ?_⟩
  obtain ⟨up, hup⟩ := h.exists_climbs ht q
  rwa [heq, ← hpath hup]

/-- A register answers as a tree does.

* `get`, `walk`: one name, or names from the root on, lead to the same attribute.
* `climbs`: the way up from anywhere ends, and its names are those of the path from its end. So the
  text of the path is that of these names, in the other order.
* `add`: to create an attribute gives the same quark, or is refused alike. -/
structure Answers (r : Register) (t : Tree) : Prop where
  size : r.rows.size = t.size
  name : ∀ q, r.name? q = t.name? q
  parent : ∀ q, r.parent? q = t.parent? q
  get : ∀ p name, r.get? p name = t.child? p name
  walk : ∀ names, r.walk? names = t.walk? Quark.root names
  climbs : ∀ q names, r.Climbs q names ↔ names = (t.path q).reverse
  text : ∀ q names, r.Climbs q names → "/".intercalate names.reverse = t.pathText q
  add : ∀ p name, (r.add p name).map Prod.fst = (t.add p name).map Prod.fst

theorem Keeps.answers (h : r.Keeps t) (ht : t.Rooted) (hg : t.Grounded) : r.Answers t where
  size := h.size
  name q := by
    rw [name?, Tree.name?, ← h.node, Option.map_map]
    rfl
  parent q := by
    rw [parent?, Tree.parent?, ← h.node, Option.map_map]
    rfl
  get := h.get?_eq ht
  walk names := by
    rw [walk?]
    generalize Quark.root = start
    induction names generalizing start with
    | nil => rfl
    | cons name rest ih =>
        rw [List.foldlM_cons, Tree.walk?, h.get?_eq ht]
        exact congrArg _ (funext ih)
  climbs _ _ := h.climbs_iff hg
  text q names hclimbs := by
    rw [(h.climbs_iff hg).mp hclimbs, List.reverse_reverse]
    rfl
  add p name := by
    rcases h.add ht p name with ⟨hr, hadd⟩ | ⟨q, r', t', hr, hadd, -⟩
    · rw [hr, hadd]
      rfl
    · rw [hr, hadd]
      rfl

end Register

/-- **A tree is a table of names,** and a register answers as the tree does, whatever attributes
were created, in whatever order. -/
theorem Tree.named_addEach (added : List (Quark × String)) :
    (({} : Tree).addEach added).Named ∧
      (({} : Register).addEach added).Answers (({} : Tree).addEach added) := by
  have ht := rooted_addEach rooted_empty added
  have hg := grounded_addEach grounded_empty added
  exact ⟨named ht hg, (Register.keeps_empty.addEach rooted_empty added).answers ht hg⟩

end Chronicle
