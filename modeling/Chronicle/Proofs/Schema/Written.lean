import Chronicle.Proofs.Json.Written
import Chronicle.Proofs.Schema.Sound
import Chronicle.Proofs.Value.Written
import Chronicle.Schema.Encoding

/-!
# Schemas are read as they are written

Each part of a schema is written as a value that is read as that part again, and so is the schema as
a whole, as a document without definitions (`Document.ofJson?_toJson`). Of a pattern the text is
written, so what comes back is the pattern of that text (`Handler.respelled`): the same, if it was
made of a text, as all patterns of documents that are read were (`Document.spelled_of_read?`).

The readers of locators, conditions and state changes go no deeper than the value that they read
nests, so a part of it is read with less depth than the whole, and the induction is over what was
written, for every depth that is enough for it.
-/

namespace Chronicle

theorem StackAction.ofJson?_name (position : Json.Position) (a : StackAction) :
    ofJson? position (.str a.name) = some a := by
  cases a <;> rfl

/-! ### Paths -/

namespace Locator

theorem toJsonEach_eq_map (path : List Locator) : toJsonEach path = path.map toJson := by
  induction path with
  | nil => rfl
  | cons l rest ih => rw [toJsonEach, ih, List.map_cons]

theorem toJson_query (path : List Locator) :
    (Locator.query path).toJson =
      .obj [("type", .str "query"), ("path", .arr (path.map toJson))] := by
  rw [toJson, toJsonEach_eq_map]

/-- A locator is read as it is written, if the reader may go as deep as it nests. -/
theorem ofJsonWithin_toJson (l : Locator) : ∀ (n : Nat) (position : Json.Position),
    l.toJson.depth ≤ n → ofJsonWithin n position l.toJson = some l := by
  induction l using Locator.induction with
  | query path ih =>
      intro n position hdepth
      rw [toJson_query] at hdepth ⊢
      obtain ⟨m, rfl, hmembers⟩ := Json.exists_succ_of_depth_le hdepth
      have hpath : (path.map toJson).mapM (ofJsonWithin m .nested) = some path :=
        Json.mapM_map_of_depth_le (fun l hl n => ih l hl n .nested)
          (hmembers ("path", _) (by simp))
      rw [ofJsonWithin, Json.tagged?_obj (by decide) position (by simp)]
      simp only [Json.record?_singleton, Option.bind_eq_bind, Option.bind_some, Json.arr?, hpath]
      rfl
  | _ name =>
      intro n position hdepth
      obtain ⟨m, rfl, -⟩ := Json.exists_succ_of_depth_le hdepth
      rw [toJson, ofJsonWithin, Json.tagged?_obj (by decide) position (by simp)]
      rfl

theorem ofJson?_toJson (position : Json.Position) (l : Locator) :
    ofJson? position l.toJson = some l :=
  l.ofJsonWithin_toJson _ position (Nat.le_refl _)

theorem pathOfJson?_pathToJson (position : Json.Position) (path : List Locator) :
    pathOfJson? position (pathToJson path) = some path := by
  rw [pathToJson, toJsonEach_eq_map]
  exact Json.mapM_map_eq_some fun l _ => l.ofJson?_toJson position

end Locator

/-! ### Terms and conditions -/

namespace Source

theorem ofJson?_toJson (position : Json.Position) (source : Source) :
    ofJson? position source.toJson = some source := by
  cases source with
  | literal v =>
      rw [toJson, ofJson?, Json.tagged?_obj (by decide) position (by simp)]
      change (Value.ofJson? .nested v.toJson).bind (fun w => some (literal w)) = some (literal v)
      rw [Value.ofJson?_toJson]
      rfl
  | eventField name kind =>
      cases kind with
      | none =>
          rw [toJson, ofJson?, Json.tagged?_obj (by decide) position (by simp)]
          rfl
      | some k =>
          rw [toJson, ofJson?, Json.tagged?_obj (by decide) position (by simp)]
          cases k <;> rfl
  | query path =>
      rw [toJson, ofJson?, Json.tagged?_obj (by decide) position (by simp)]
      change (Locator.pathOfJson? .nested (Locator.pathToJson path)).bind
        (fun p => some (query p)) = some (query path)
      rw [Locator.pathOfJson?_pathToJson]
      rfl
  | eventName =>
      rw [toJson, ofJson?, Json.tagged?_obj (by decide) position (by simp)]
      rfl
  | delete =>
      rw [toJson, ofJson?, Json.tagged?_obj (by decide) position (by simp)]
      rfl

end Source

theorem Term.ofJson?_toJson (position : Json.Position) (m : Term) :
    ofJson? position m.toJson = some m := by
  have hrecord : m.toJson.record? [["value"], ["increment"], ["stack"]] =
    some [some m.source.toJson, some (.bool m.increment), some (.str m.stack.name)] := rfl
  simp only [ofJson?, hrecord, Option.bind_eq_bind, Option.bind_some, Source.ofJson?_toJson,
    Json.withDefault?, Json.bool?, StackAction.ofJson?_name]
  rfl

theorem Operand.ofJson?_toJson (o : Operand) : ofJson? o.toJson = some o := by
  rcases o with path | m
  · exact congrArg (Option.map _) (Locator.pathOfJson?_pathToJson .nested path)
  · exact congrArg (Option.map _) (m.ofJson?_toJson .nested)

namespace Condition

theorem toJsonEach_eq_map (cs : List Condition) : toJsonEach cs = cs.map toJson := by
  induction cs with
  | nil => rfl
  | cons c rest ih => rw [toJsonEach, ih, List.map_cons]

/-- A condition is read as it is written, if the reader may go as deep as it nests. -/
theorem ofJsonWithin_toJson (c : Condition) : ∀ (n : Nat) (position : Json.Position),
    c.toJson.depth ≤ n → ofJsonWithin n position c.toJson = some c := by
  induction c using Condition.induction with
  | leaf operand expected =>
      intro n position hdepth
      obtain ⟨m, rfl, -⟩ := Json.exists_succ_of_depth_le hdepth
      have hrecord : (Json.obj [("operand", operand.toJson), ("expected", expected.toJson)]).record?
        [["operand"], ["expected"]] = some [some operand.toJson, some expected.toJson] := rfl
      rw [toJson, ofJsonWithin, Json.tagged?_obj (by decide) position (by simp)]
      simp only [hrecord, Option.bind_eq_bind, Option.bind_some, Operand.ofJson?_toJson,
        Term.ofJson?_toJson]
      rfl
  | not c ih =>
      intro n position hdepth
      obtain ⟨m, rfl, hmembers⟩ := Json.exists_succ_of_depth_le hdepth
      have hc := ih m .nested (hmembers ("condition", c.toJson) (by simp))
      rw [toJson, ofJsonWithin, Json.tagged?_obj (by decide) position (by simp)]
      simp only [Json.record?_singleton, Option.bind_eq_bind, Option.bind_some, hc]
      rfl
  | all cs ih | any cs ih =>
      intro n position hdepth
      rw [toJson, toJsonEach_eq_map] at hdepth ⊢
      obtain ⟨m, rfl, hmembers⟩ := Json.exists_succ_of_depth_le hdepth
      have hcs : (cs.map toJson).mapM (ofJsonWithin m .nested) = some cs :=
        Json.mapM_map_of_depth_le (fun c hc n => ih c hc n .nested)
          (hmembers ("conditions", _) (by simp))
      rw [ofJsonWithin, Json.tagged?_obj (by decide) position (by simp)]
      simp only [Json.record?_singleton, Option.bind_eq_bind, Option.bind_some, Json.arr?, hcs]
      rfl

theorem ofJson?_toJson (position : Json.Position) (c : Condition) :
    ofJson? position c.toJson = some c :=
  c.ofJsonWithin_toJson _ position (Nat.le_refl _)

end Condition

/-! ### State changes and handlers -/

namespace Change

theorem mem_branchMembers {name : String} {branch : Option Change} {member : String × Json} :
    member ∈ branchMembers name branch ↔ ∃ change ∈ branch, member = (name, change.toJson) := by
  cases branch <;> simp [branchMembers]

/-- The fields of a choice, a branch that is absent being no field. -/
theorem record?_conditional (c : Condition) (yes no : Option Change) :
    (Json.obj (("condition", c.toJson) ::
      (branchMembers "then" yes ++ branchMembers "else" no))).record?
        [["condition"], ["then"], ["else"]] =
      some [some c.toJson, yes.map toJson, no.map toJson] := by
  cases yes <;> cases no <;> rfl

/-- A branch is read as it is written. -/
theorem optional?_toJson {branch : Option Change} {decode : Json → Option Change}
    (h : ∀ change ∈ branch, decode change.toJson = some change) :
    Json.optional? decode (branch.map toJson) = some branch := by
  cases branch with
  | none => rfl
  | some change =>
      refine Json.optional?_some ?_ (h change rfl)
      cases change <;> simp [toJson]

/-- A state change is read as it is written, if the reader may go as deep as it nests. -/
theorem ofJsonWithin_toJson (change : Change) : ∀ (n : Nat) (position : Json.Position),
    change.toJson.depth ≤ n → ofJsonWithin n position change.toJson = some change := by
  induction change using Change.induction with
  | assign path m =>
      intro n position hdepth
      obtain ⟨d, rfl, -⟩ := Json.exists_succ_of_depth_le hdepth
      have hrecord : (Json.obj [("path", Locator.pathToJson path), ("value", m.toJson)]).record?
        [["path"], ["value"]] = some [some (Locator.pathToJson path), some m.toJson] := rfl
      rw [toJson, ofJsonWithin, Json.tagged?_obj (by decide) position (by simp)]
      simp only [hrecord, Option.bind_eq_bind, Option.bind_some, Locator.pathOfJson?_pathToJson,
        Term.ofJson?_toJson]
      rfl
  | conditional c yes no ihyes ihno =>
      intro n position hdepth
      have hwritten : (Change.conditional c yes no).toJson = .obj (("type", .str "conditional") ::
          ("condition", c.toJson) :: (branchMembers "then" yes ++ branchMembers "else" no)) := by
        rw [toJson]
        rfl
      rw [hwritten] at hdepth ⊢
      obtain ⟨d, rfl, hmembers⟩ := Json.exists_succ_of_depth_le hdepth
      have hbranch : ∀ member ∈ branchMembers "then" yes ++ branchMembers "else" no,
          member.2.depth ≤ d := fun member hmember =>
        hmembers member (List.mem_cons_of_mem _ (List.mem_cons_of_mem _ hmember))
      have hyes := optional?_toJson fun change hchange => ihyes change hchange d .nested
        (hbranch _ (List.mem_append_left _ (mem_branchMembers.mpr ⟨change, hchange, rfl⟩)))
      have hno := optional?_toJson fun change hchange => ihno change hchange d .nested
        (hbranch _ (List.mem_append_right _ (mem_branchMembers.mpr ⟨change, hchange, rfl⟩)))
      have htag : ∀ member ∈ ("condition", c.toJson) ::
          (branchMembers "then" yes ++ branchMembers "else" no), member.1 ≠ "type" := by
        intro member hmember
        simp only [List.mem_cons, List.mem_append, mem_branchMembers] at hmember
        rcases hmember with rfl | ⟨change, -, rfl⟩ | ⟨change, -, rfl⟩ <;> simp
      rw [ofJsonWithin, Json.tagged?_obj (by decide) position htag]
      simp only [record?_conditional, Option.bind_eq_bind, Option.bind_some,
        Condition.ofJson?_toJson, hyes, hno]
      rfl

theorem ofJson?_toJson (position : Json.Position) (change : Change) :
    ofJson? position change.toJson = some change :=
  change.ofJsonWithin_toJson _ position (Nat.le_refl _)

end Change

/-- A location or a handler stands 2 deep in its document and its list of parts 3 deep. The parts of
such a list are as sound as their readers ask them to be. -/
theorem all_sound_partDepth {items : List Json} (hs : (Json.arr items).sound 3 = true) :
    items.all (Json.sound partDepth) = true :=
  List.all_eq_true.mpr fun _ hj => Json.sound_of_mem_items hs hj

/-- A location is read as it is written, if it stands in a document that may be read. -/
theorem Location.ofJson?_toJson {l : Location} (hs : l.toJson.sound 2 = true) :
    ofJson? l.toJson = some l := by
  have hall : (l.path.map Locator.toJson).all (Json.sound partDepth) = true := by
    refine all_sound_partDepth ?_
    rw [← Locator.toJsonEach_eq_map]
    exact Json.sound_of_mem_members hs (List.mem_cons_of_mem _ List.mem_cons_self)
  have hread : (l.path.map Locator.toJson).mapM (Locator.ofJson? .outer) = some l.path :=
    Json.mapM_map_eq_some fun m _ => m.ofJson?_toJson .outer
  have hrecord : l.toJson.record? [["name"], ["path"]] =
      some [some (.str l.name), some (.arr (l.path.map Locator.toJson))] := by
    rw [← Locator.toJsonEach_eq_map]
    rfl
  rw [ofJson?, hrecord]
  refine Json.guard_bind_eq_some_iff.mpr ⟨hall, ?_⟩
  rw [hread]
  rfl

namespace Handler

/-- The handler with its pattern made of the text of its pattern. -/
def respelled (h : Handler) : Handler :=
  { h with pattern := .ofText h.pattern.text }

theorem respelled_of_ofText {h : Handler} {text : String} (hp : h.pattern = .ofText text) :
    h.respelled = h := by
  obtain ⟨pattern, changes⟩ := h
  obtain rfl : pattern = .ofText text := hp
  rw [respelled, Pattern.text_ofText]

/-- A handler is read as it is written, but for its pattern, of which only the text is written. -/
theorem ofJson?_toJson {h : Handler} (hs : h.toJson.sound 2 = true) :
    ofJson? h.toJson = some h.respelled := by
  have hall : (h.changes.map Change.toJson).all (Json.sound partDepth) = true :=
    all_sound_partDepth (Json.sound_of_mem_members hs (List.mem_cons_of_mem _ List.mem_cons_self))
  have hread : (h.changes.map Change.toJson).mapM (Change.ofJson? .outer) = some h.changes :=
    Json.mapM_map_eq_some fun change _ => change.ofJson?_toJson .outer
  have hrecord : h.toJson.record? [["event"], ["state_changes"]] =
    some [some (.str h.pattern.text), some (.arr (h.changes.map Change.toJson))] := rfl
  rw [ofJson?, hrecord]
  refine Json.guard_bind_eq_some_iff.mpr ⟨hall, ?_⟩
  rw [hread]
  rfl

end Handler

/-! ### Documents -/

/-- The document that a schema is written as. -/
def Schema.document (schema : Schema) : Document where
  locations := schema.table.locations
  handlers := schema.handlers.map Handler.respelled

/-- **A schema is read as it is written,** in a document without definitions. -/
theorem Document.ofJson?_toJson {schema : Schema} (hs : schema.toJson.sound 0 = true) :
    ofJson? schema.toJson = some schema.document := by
  have hlocations : (schema.table.locations.map Location.toJson).mapM Location.ofJson? =
      some schema.table.locations := by
    have harr : (Json.arr (schema.table.locations.map Location.toJson)).sound 1 = true :=
      Json.sound_of_mem_members hs List.mem_cons_self
    refine Json.mapM_map_eq_some fun l hl => Location.ofJson?_toJson ?_
    exact Json.sound_of_mem_items harr (List.mem_map_of_mem hl)
  have hhandlers : (schema.handlers.map Handler.toJson).mapM Handler.ofJson? =
      some (schema.handlers.map Handler.respelled) := by
    have harr : (Json.arr (schema.handlers.map Handler.toJson)).sound 1 = true :=
      Json.sound_of_mem_members hs (List.mem_cons_of_mem _ List.mem_cons_self)
    refine Json.mapM_map fun h hh => Handler.ofJson?_toJson ?_
    exact Json.sound_of_mem_items harr (List.mem_map_of_mem hh)
  have hrecord : schema.toJson.record?
      [["version"], ["defined_values"], ["locations"], ["handlers"]] =
    some [none, none, some (.arr (schema.table.locations.map Location.toJson)),
      some (.arr (schema.handlers.map Handler.toJson))] := rfl
  simp only [ofJson?, hrecord, Option.bind_eq_bind, Option.bind_some, Json.optional?,
    Json.withDefault?, Json.arr?, hlocations, hhandlers]
  rfl

/-! ### Patterns of documents that are read -/

/-- The pattern of a handler that is read is made of a text. -/
theorem Handler.exists_ofText_of_ofJson? {j : Json} {h : Handler} (hj : ofJson? j = some h) :
    ∃ text, h.pattern = .ofText text := by
  obtain ⟨fields, -, hj⟩ := Option.bind_eq_some_iff.mp hj
  split at hj
  · obtain ⟨_, -, hj⟩ := Option.bind_eq_some_iff.mp hj
    obtain ⟨text, -, hj⟩ := Option.bind_eq_some_iff.mp hj
    obtain ⟨_, -, hj⟩ := Option.bind_eq_some_iff.mp hj
    obtain ⟨_, -, hj⟩ := Option.bind_eq_some_iff.mp hj
    obtain ⟨-, hj⟩ := Json.guard_bind_eq_some_iff.mp hj
    obtain ⟨_, -, hj⟩ := Option.bind_eq_some_iff.mp hj
    obtain rfl := Option.some.inj hj
    exact ⟨text, rfl⟩
  · cases hj

namespace Document

/-- The patterns of the handlers are made of texts. -/
def Spelled (d : Document) : Prop :=
  ∀ h ∈ d.handlers, ∃ text, h.pattern = .ofText text

theorem spelled_of_ofJson? {j : Json} {d : Document} (hj : ofJson? j = some d) : d.Spelled := by
  unfold ofJson? at hj
  simp only [Option.bind_eq_bind, Option.bind_eq_some_iff] at hj
  obtain ⟨fields, -, hj⟩ := hj
  split at hj
  · simp only [Option.bind_eq_some_iff, Option.pure_def, Option.some.injEq] at hj
    obtain ⟨_, -, _, -, _, -, handlers, hhandlers, rfl⟩ := hj
    intro h hh
    unfold Json.withDefault? at hhandlers
    split at hhandlers
    · obtain rfl := Option.some.inj hhandlers
      cases hh
    · obtain ⟨items, -, hitems⟩ := Option.bind_eq_some_iff.mp hhandlers
      obtain ⟨i, -, hi⟩ := Json.exists_of_mem_mapM hitems h hh
      exact Handler.exists_ofText_of_ofJson? hi
  · cases hj

/-- In a document that is read the patterns are made of texts. -/
theorem spelled_of_read? {text : String} {d : Document} (h : read? text = some d) : d.Spelled := by
  obtain ⟨j, -, hj⟩ := Option.bind_eq_some_iff.mp h
  exact spelled_of_ofJson? hj

end Document
end Chronicle
