import Chronicle.Command.Run
import Chronicle.Proofs.Command.Sessions
import Chronicle.Proofs.Files.Places

/-!
# What a run does to its inputs

A run reads a schema and a trace, and may write a dump. Before the dump is written no file changes;
then the file at the place of the output does, and no other (`RunOptions.Ends`). So an input is kept
if it is at another place, and holds the dump if it is at the same (`RunOptions.treats_inputs`).

The check of the options asks that the output has other components than an input. If the two are
spelled in one manner they are then two files. Otherwise they need not be: `./s.json` has other
components than `s.json` and is the same file (`RunOptions.overwrites_of_dotted`).
-/

namespace Chronicle
namespace Command

open Files

variable {m m' : Memory} {path now : String} {d : Dump} {o : RunOptions}

/-! ### The parts of a run -/

theorem comes_loadSchema (path : String) (m : Memory) :
    (loadSchema path : Session SchemaError (StateM Memory) Schema).Comes m fun _ after =>
      after = m := by
  refine .after_log (.after_expect rfl (fun doc => ?_) fun _ => rfl)
  refine .after_log (.after_expect rfl (fun schema => ?_) fun _ => rfl)
  exact .after_log (Session.comes_pure rfl)

theorem comes_readTrace (path : String) (m : Memory) :
    (readTrace path : Session TraceError (StateM Memory) (List Event)).Comes m fun _ after =>
      after = m := by
  refine .after_log (.after_expect rfl (fun reading => ?_) fun _ => rfl)
  refine .after_log (.after_expect rfl (fun events => ?_) fun _ => rfl)
  exact .after_log (Session.comes_pure rfl)

/-- To make the folder around a path keeps all files. -/
theorem comes_makeFolderAround (path : String) (m : Memory) :
    (makeFolderAround path : Session OutputError (StateM Memory) Unit).Comes m fun _ after =>
      m.Keeps (fun _ => True) after := by
  unfold makeFolderAround
  split
  · exact Session.comes_pure (.refl _ m)
  · next parent _ =>
    refine .after_ask ?_
    split
    · exact Session.comes_pure (.refl _ m)
    · refine .after_log (.after_ask ?_)
      rcases Memory.attempt_cases (·.makeFolders parent) m with ⟨after, hmade, hrun⟩ | hrun
      · exact hrun ▸ Session.comes_pure (Memory.keeps_makeFolders hmade)
      · exact hrun ▸ Session.comes_throw (.refl _ m)

/-- A dump is written to the path and the other files are kept, or all files are kept. -/
theorem comes_writeDump (d : Dump) (path : String) (m : Memory) :
    (writeDump d path : Session OutputError (StateM Memory) Unit).Comes m fun result after =>
      (∃ e, result = .error e ∧ m.Keeps (fun _ => True) after) ∨
        result = .ok () ∧ m.Keeps (· ≠ m.place path) after ∧
          after.at? (m.place path) = .bytes d.render.toUTF8 := by
  refine .after_log (.after_expect rfl (fun _ => ?_) fun e => .inl ⟨e, rfl, .refl _ m⟩)
  refine .bind (comes_makeFolderAround path m) (fun _ made hmade => .after_ask ?_)
    fun e made hmade => .inl ⟨e, rfl, hmade⟩
  rcases Memory.attempt_cases (·.write path d.render.toUTF8) made with
    ⟨written, hwrite, hrun⟩ | hrun
  · obtain ⟨hkeeps, hat⟩ := Memory.keeps_write hwrite
    rw [hmade.place_eq] at hkeeps hat
    have hkept := (hmade.mono fun _ _ => trivial).trans hkeeps
    exact hrun ▸ Session.comes_log (.inr ⟨rfl, hkept, hat⟩)
  · exact hrun ▸ Session.comes_throw_bind (.inl ⟨_, rfl, hmade⟩)

namespace RunOptions

/-- A dump is at the place of the output, if one is asked for, and the files at other places are
kept. -/
structure Delivered (o : RunOptions) (d : Dump) (m after : Memory) : Prop where
  kept : m.Keeps (fun p => ∀ path ∈ o.output, p ≠ m.place path) after
  held : ∀ path ∈ o.output, after.at? (m.place path) = .bytes d.render.toUTF8

/-- What a run comes to, and the files that it leaves: it stopped before a dump was written, or it
delivered a dump, and then it may still have failed because of state changes that failed. -/
inductive Ends (o : RunOptions) (m : Memory) : Except Error Dump → Memory → Prop
  | stopped {e : Error} {after : Memory} : (∀ count first, e ≠ .changesFailed count first) →
    m.Keeps (fun _ => True) after → Ends o m (.error e) after
  | delivered {d : Dump} {after : Memory} : o.Delivered d m after → Ends o m (.ok d) after
  | failed {d : Dump} {count : Nat} {first : ChangeError} {after : Memory} :
    o.Delivered d m after → Ends o m (.error (.changesFailed count first)) after

theorem comes_deliver (o : RunOptions) (d : Dump) (m : Memory) :
    (o.deliver d : Session Error (StateM Memory) Unit).Comes m fun result after =>
      (∃ e, result = .error (.dumpNotWritten e) ∧ m.Keeps (fun _ => True) after) ∨
        result = .ok () ∧ o.Delivered d m after := by
  unfold deliver
  split
  · next path hpath =>
    have hwritten : (Session.within .dumpNotWritten (writeDump d path) :
        Session Error (StateM Memory) Unit).Comes m fun result after =>
          (∃ e, result = .error (.dumpNotWritten e) ∧ m.Keeps (fun _ => True) after) ∨
            result = .ok () ∧ o.Delivered d m after := by
      refine .within ((comes_writeDump d path m).mono fun result after h => ?_)
      rcases h with ⟨e, rfl, hkept⟩ | ⟨rfl, hkept, hheld⟩
      · exact .inl ⟨e, rfl, hkept⟩
      · refine .inr ⟨rfl, ?_, ?_⟩
        · exact hkept.mono fun p hp => hp path hpath
        · rintro other hother
          obtain rfl := Option.some.inj (hpath.symm.trans hother)
          exact hheld
    refine .after_log (.bind hwritten (fun _ after h => ?_) fun e after h => ?_)
    · rcases h with ⟨e, h, -⟩ | ⟨-, h⟩
      · cases h
      · exact Session.comes_log (.inr ⟨rfl, h⟩)
    · rcases h with ⟨e, h, hkept⟩ | ⟨h, -⟩
      · exact .inl ⟨e, h, hkept⟩
      · cases h
  · next hnone =>
    refine Session.comes_log (.inr ⟨rfl, (Memory.Keeps.refl _ m), ?_⟩)
    rw [hnone]
    exact nofun

/-- A part of a run that changes nothing, and does not fail because of state changes. -/
theorem comes_within {ε α : Type} {wrap : ε → Error} {part : Session ε (StateM Memory) α}
    (hwrap : ∀ e count first, wrap e ≠ .changesFailed count first)
    (h : part.Comes m fun _ after => after = m) :
    (Session.within wrap part).Comes m fun result after =>
      after = m ∧ ∀ e count first, result = .error e → e ≠ .changesFailed count first := by
  refine .within (h.mono fun result after hafter => ⟨hafter, ?_⟩)
  rintro e count first hresult
  cases result with
  | ok a => cases hresult
  | error cause =>
      obtain rfl : wrap cause = e := Except.error.inj hresult
      exact hwrap cause count first

/-- **A run leaves all files as they are but that at the place of its output.** -/
theorem comes_execute (o : RunOptions) (now : String) (m : Memory) :
    (o.execute now : Session Error (StateM Memory) Dump).Comes m (o.Ends m) := by
  refine .after_log (.bind (comes_within (fun _ _ _ => nofun) (comes_loadSchema o.schema m)) ?_ ?_)
  · rintro schema after ⟨rfl, -⟩
    refine .after_log ?_
    refine .bind (comes_within (fun _ _ _ => nofun) (comes_readTrace o.events after)) ?_ ?_
    · rintro events after ⟨rfl, -⟩
      refine .after_log ?_
      dsimp only
      refine .after_log (.bind (o.comes_deliver _ after) (fun _ left h => ?_) fun e left h => ?_)
      · rcases h with ⟨e, h, -⟩ | ⟨-, hdelivered⟩
        · cases h
        · split
          · refine .after_print (.after_log ?_)
            split
            · exact Session.comes_throw (.failed hdelivered)
            · exact Session.comes_pure (.delivered hdelivered)
          · refine .after_log ?_
            split
            · exact Session.comes_throw (.failed hdelivered)
            · exact Session.comes_pure (.delivered hdelivered)
      · rcases h with ⟨cause, h, hkept⟩ | ⟨h, -⟩
        · cases h
          exact .stopped (fun _ _ => nofun) hkept
        · cases h
    · rintro e after ⟨rfl, he⟩
      exact .stopped (fun count first => he e count first rfl) (.refl _ after)
  · rintro e after ⟨rfl, he⟩
    exact .stopped (fun count first => he e count first rfl) (.refl _ after)

/-! ### The inputs -/

/-- The options pass their check, as the files are. -/
def Passes (o : RunOptions) (m : Memory) : Prop :=
  ((Session.transcribe o.check : StateM Memory _).run m).run.1.1 = .ok ()

/-- What a run comes to, and the files that it leaves. -/
def outcome (o : RunOptions) (now : String) (m : Memory) : Except Error Dump × Memory :=
  let ended := ((Session.transcribe (o.execute now) : StateM Memory _).run m).run
  (ended.1.1, ended.2)

/-- The two inputs are files, and the output has other components than either. -/
theorem passes_iff : o.Passes m ↔
    (o.schema.isEmpty = false ∧ (m.contents o.schema).isFile = true) ∧
      (o.events.isEmpty = false ∧ (m.contents o.events).isFile = true) ∧ o.overwrites = false := by
  have hcheck : o.Passes m ↔ o.fits (m.contents o.schema) (m.contents o.events) = .ok () := .rfl
  rw [hcheck, fits]
  grind

instance (o : RunOptions) (m : Memory) : Decidable (o.Passes m) :=
  decidable_of_iff _ passes_iff.symm

/-- What a run that came to `result` and left the files `after` does to its input at `path`.

* `file`: the input is a file.
* `spelled`, `manner`: the output has other components than the input; so it is another file if both
  are spelled in one manner.
* `denoted`: where the working folder lies below the top, it is the same file if and only if both
  denote one.
* `kept`: if it is another file, the input is kept.
* `stopped`: the input is kept as well if the run stopped before it wrote a dump.
* `lost`: if it is the same file and a dump was written, the input holds the dump. -/
structure Treats (o : RunOptions) (m : Memory) (result : Except Error Dump) (after : Memory)
    (path : String) : Prop where
  file : (m.contents path).isFile = true
  spelled : ∀ out ∈ o.output, components out ≠ components path
  manner : ∀ out ∈ o.output, Alongside out path → m.place out ≠ m.place path
  denoted : ∀ names, m.working = { origin := .top, names } → ∀ out ∈ o.output,
    m.place out = m.place path ↔ denote names out = denote names path
  kept : (∀ out ∈ o.output, m.place out ≠ m.place path) → after.contents path = m.contents path
  stopped : ∀ e, result = .error e → (∀ count first, e ≠ .changesFailed count first) →
    after.contents path = m.contents path
  lost : ∀ out ∈ o.output, m.place out = m.place path →
    (∀ d, result = .ok d → after.contents path = .bytes d.render.toUTF8) ∧
      ∀ count first, result = .error (.changesFailed count first) →
        ∃ d : Dump, after.contents path = .bytes d.render.toUTF8

variable {result : Except Error Dump} {after : Memory} {b : ByteArray} {out : String}

theorem Delivered.contents (h : o.Delivered d m after) (hb : m.contents path = .bytes b)
    (hout : out ∈ o.output) (hplace : m.place out = m.place path) :
    after.contents path = .bytes d.render.toUTF8 := by
  rw [Memory.contents, h.kept.locate? (Memory.exists_locate?_of_contents hb).1, ← hplace]
  exact h.held out hout

/-- A file at another place than the output is kept, whatever comes of the run. -/
theorem Ends.contents (h : o.Ends m result after) (hb : m.contents path = .bytes b)
    (hplace : ∀ out ∈ o.output, m.place path ≠ m.place out) : after.contents path = .bytes b := by
  cases h with
  | stopped _ hkept => exact hkept.contents trivial hb
  | delivered h => exact h.kept.contents hplace hb
  | failed h => exact h.kept.contents hplace hb

theorem Ends.treats (h : o.Ends m result after) (hfile : (m.contents path).isFile = true)
    (hspelled : ∀ out ∈ o.output, components out ≠ components path) :
    o.Treats m result after path := by
  obtain ⟨b, hb⟩ : ∃ b, m.contents path = .bytes b := by
    cases hc : m.contents path with
    | absent => rw [hc] at hfile; cases hfile
    | folder => rw [hc] at hfile; cases hfile
    | bytes b => exact ⟨b, rfl⟩
  refine ⟨hfile, hspelled, ?_, ?_, ?_, ?_, ?_⟩
  · exact fun out hout halong => Memory.place_ne_of_alongside halong (hspelled out hout) m
  · intro names hworking out _
    rw [Memory.place_eq_denote hworking, Memory.place_eq_denote hworking, Place.mk.injEq]
    exact and_iff_right rfl
  · intro hplace
    rw [hb]
    exact h.contents hb fun out hout => (hplace out hout).symm
  · rintro e rfl hne
    cases h with
    | stopped _ hkept => rw [hb, hkept.contents trivial hb]
    | failed => exact absurd rfl (hne _ _)
  · intro out hout hplace
    constructor
    · rintro d rfl
      cases h with
      | delivered h => exact h.contents hb hout hplace
    · rintro count first rfl
      cases h with
      | stopped hne => exact absurd rfl (hne count first)
      | failed h => exact ⟨_, h.contents hb hout hplace⟩

theorem ends_outcome (o : RunOptions) (now : String) (m : Memory) :
    o.Ends m (o.outcome now m).1 (o.outcome now m).2 :=
  o.comes_execute now m {}

theorem components_ne_of_overwrites (h : o.overwrites = false) :
    ∀ out ∈ o.output, components out ≠ components o.schema ∧
      components out ≠ components o.events := by
  intro out hout
  rw [Option.mem_def] at hout
  rw [overwrites, hout] at h
  simpa [spelledAlike] using h

/-- **A run keeps an input unless its output is the same file.** The check asks for other
components; these are another file if both are spelled in one manner. -/
theorem treats_inputs (o : RunOptions) (now : String) (m : Memory) (h : o.Passes m) :
    ∀ path ∈ [o.schema, o.events],
      o.Treats m (o.outcome now m).1 (o.outcome now m).2 path := by
  obtain ⟨⟨-, hschema⟩, ⟨-, hevents⟩, hoverwrites⟩ := passes_iff.mp h
  have hspelled := components_ne_of_overwrites hoverwrites
  have hends := o.ends_outcome now m
  simp only [List.forall_mem_cons, List.not_mem_nil, false_imp_iff, implies_true, and_true]
  exact ⟨hends.treats hschema fun out hout => (hspelled out hout).1,
    hends.treats hevents fun out hout => (hspelled out hout).2⟩

/-- A schema without handlers and a trace without events, in the working folder. -/
def twoInputs : Memory where
  files := [({ origin := .top, names := ["work", "s.json"] }, "\x7b\"handlers\": []\x7d".toUTF8),
    ({ origin := .top, names := ["work", "e.json"] }, "\x7b\"events\": []\x7d".toUTF8)]
  folders := [{ origin := .top, names := ["work"] }]
  working := { origin := .top, names := ["work"] }

/-- The output is the schema, behind a leading dot. -/
def dotted : RunOptions where
  schema := "s.json"
  events := "e.json"
  output := some "./s.json"

theorem treats_inputs_of_dotted :
    dotted.Passes twoInputs ∧
      (dotted.outcome "now" twoInputs).2.contents "e.json" = twoInputs.contents "e.json" ∧
      ∀ d, (dotted.outcome "now" twoInputs).1 = .ok d →
        (dotted.outcome "now" twoInputs).2.contents "s.json" = .bytes d.render.toUTF8 := by
  have h : dotted.Passes twoInputs := by decide +kernel
  have hevents := dotted.treats_inputs "now" twoInputs h "e.json" (by decide)
  have hschema := dotted.treats_inputs "now" twoInputs h "s.json" (by decide)
  refine ⟨h, hevents.kept ?_, (hschema.lost "./s.json" rfl (by decide +kernel)).1⟩
  rintro out hout
  obtain rfl := Option.some.inj hout
  decide +kernel

/-- **The check does not keep a run from its inputs:** a leading dot lets the output be the schema,
and the schema is lost. -/
theorem overwrites_of_dotted :
    dotted.Passes twoInputs ∧ denote ["work"] "./s.json" = denote ["work"] dotted.schema ∧
      ((dotted.outcome "now" twoInputs).2.contents dotted.schema).document? ≠
        (twoInputs.contents dotted.schema).document? := by
  decide +kernel

end RunOptions
end Command
end Chronicle
