import Chronicle.Files.Memory

/-!
# Where paths lead

In a volume without links a path leads to one place, and its components tell which: no other file is
found under it, and no other file is written (`Memory.locate?_eq_place`). Where the working folder
lies below the top, this is the file that the path denotes (`Memory.place_eq_denote`). Paths that
are spelled in one manner lead to one place only if they have the same components
(`Memory.place_ne_of_alongside`).

Making folders keeps all that there is, and writing keeps all but what is at the place that is
written to (`Memory.Keeps`). Folders stay, so paths lead to where they led before.
-/

namespace Chronicle
namespace Files

/-- The place that a component leads to. -/
def Place.step (p : Place) : Component → Place
  | .root => .top
  | .here => p
  | .up => p.around
  | .name s => p.child s

/-- The place that a piece leads to from a folder. -/
def Place.enter? (p : Place) (piece : String) : Option Place :=
  match component? piece with
  | none => some p
  | some (.name s) => if isName s then some (p.child s) else none
  | some c => some (p.step c)

/-- Two paths are spelled in one manner: they differ in names at their ends, and in nothing else. -/
def Alongside (a b : String) : Prop :=
  ∃ (before : List Component) (names others : List String),
    components a = before ++ names.map Component.name ∧
      components b = before ++ others.map Component.name

namespace Memory

/-- The place that a path leads to, where there are folders for it to lead through. -/
def place (m : Memory) (path : String) : Place :=
  (components path).foldl Place.step m.working

variable {m m' : Memory} {p q : Place} {path : String} {b : ByteArray}

/-! ### The place of a path -/

theorem place_eq_denote {names : List String} (h : m.working = { origin := .top, names })
    (path : String) : m.place path = { origin := .top, names := denote names path } := by
  rw [place, denote, h]
  clear h
  generalize components path = cs
  induction cs generalizing names with
  | nil => rfl
  | cons c rest ih =>
      rw [List.foldl_cons, List.foldl_cons]
      cases c with
      | root => exact ih
      | here => exact ih
      | name s => exact ih
      | up => cases names <;> exact ih

theorem foldl_step_names (p : Place) (names : List String) :
    (names.map Component.name).foldl Place.step p = { p with names := p.names ++ names } := by
  induction names generalizing p with
  | nil => simp
  | cons s rest ih =>
      rw [List.map_cons, List.foldl_cons, ih]
      simp [Place.step, Place.child]

/-- **Paths in one manner lead to one place only if they have the same components.** -/
theorem place_ne_of_alongside {a b : String} (h : Alongside a b) (hne : components a ≠ components b)
    (m : Memory) : m.place a ≠ m.place b := by
  obtain ⟨before, names, others, ha, hb⟩ := h
  intro hplace
  rw [place, place, ha, hb, List.foldl_append, List.foldl_append, foldl_step_names,
    foldl_step_names] at hplace
  have hnames : names = others := List.append_cancel_left (congrArg Place.names hplace)
  exact hne (by rw [ha, hb, hnames])

theorem component?_of_name {piece : String} (h₁ : piece ≠ "") (h₂ : piece ≠ ".")
    (h₃ : piece ≠ "..") : component? piece = some (.name piece) := by
  unfold component?
  split <;> simp_all

/-- Every piece but the last leads to a folder. -/
theorem follow?_cons (m : Memory) (p : Place) (piece : String) (rest : List String) :
    m.follow? p (piece :: rest) =
      if (m.at? p).isFolder then (p.enter? piece).bind fun next => m.follow? next rest
      else none := by
  conv => lhs; unfold follow?
  congr 1
  split
  · rfl
  · rfl
  · rfl
  · next h₁ h₂ h₃ =>
    rw [Place.enter?, component?_of_name h₁ h₂ h₃]
    dsimp only
    split <;> rfl

theorem enter?_eq_some {piece : String} (h : p.enter? piece = some q) (rest : List String) :
    ((piece :: rest).filterMap component?).foldl Place.step p =
      (rest.filterMap component?).foldl Place.step q := by
  unfold Place.enter? at h
  rw [List.filterMap_cons]
  split at h
  · next hc => rw [hc, Option.some.inj h]
  · next s hc =>
    split at h
    · rw [hc, ← Option.some.inj h]
      rfl
    · cases h
  · next c _ hc => rw [hc, ← Option.some.inj h, List.foldl_cons]

theorem follow?_eq {ps : List String} (h : m.follow? p ps = some q) :
    q = (ps.filterMap component?).foldl Place.step p := by
  induction ps generalizing p with
  | nil => exact (Option.some.inj h).symm
  | cons piece rest ih =>
      rw [follow?_cons] at h
      split at h
      · obtain ⟨next, hnext, hrest⟩ := Option.bind_eq_some_iff.mp h
        rw [enter?_eq_some hnext]
        exact ih hrest
      · cases h

theorem mem_filterMap_component? {c : Component} {ps : List String}
    (h : c ∈ ps.filterMap component?) : c ≠ .root := by
  obtain ⟨piece, -, hc⟩ := List.mem_filterMap.mp h
  rintro rfl
  unfold component? at hc
  split at hc <;> cases hc

/-- A path begins at the root, or with a `.`, or else its components are those of its pieces. -/
theorem components_cases (h : path ≠ "") :
    (∃ rest, pieces path = "" :: rest ∧
      components path = .root :: rest.filterMap component?) ∨
    (∃ rest, pieces path = "." :: rest ∧
      components path = .here :: rest.filterMap component?) ∨
    components path = (pieces path).filterMap component? := by
  unfold components
  split
  · exact absurd rfl h
  · next rest _ hpieces => exact .inl ⟨rest, hpieces, rfl⟩
  · next rest _ hpieces => exact .inr (.inl ⟨rest, hpieces, rfl⟩)
  · exact .inr (.inr rfl)

theorem place_eq_foldl_pieces (h : path ≠ "") (m : Memory) :
    m.place path = ((pieces path).filterMap component?).foldl Place.step (m.start path) := by
  rw [place, start]
  rcases components_cases h with ⟨rest, hpieces, hc⟩ | ⟨rest, hpieces, hc⟩ | hc
  · rw [hc, hpieces]
    rfl
  · rw [hc, hpieces]
    rfl
  · rw [hc, if_neg]
    exact fun hhead => mem_filterMap_component? (List.mem_of_head? hhead) rfl

/-- **What is found under a path is found at its place.** -/
theorem locate?_eq_place (h : m.locate? path = some p) : p = m.place path := by
  unfold locate? at h
  split at h
  · cases h
  · next hpath =>
    have hne : path ≠ "" := by
      rintro rfl
      exact hpath rfl
    rw [place_eq_foldl_pieces hne]
    exact follow?_eq h

/-! ### Changes -/

/-- A change keeps the folders, and the files at the places in `safe`. -/
structure Keeps (safe : Place → Prop) (m m' : Memory) : Prop where
  working : m'.working = m.working
  folder : ∀ p, (m.at? p).isFolder = true → (m'.at? p).isFolder = true
  file : ∀ p b, safe p → m.at? p = .bytes b → m'.at? p = .bytes b

variable {safe : Place → Prop} {m'' : Memory}

theorem Keeps.refl (safe : Place → Prop) (m : Memory) : Keeps safe m m :=
  ⟨rfl, fun _ h => h, fun _ _ _ h => h⟩

theorem Keeps.trans (h : Keeps safe m m') (h' : Keeps safe m' m'') : Keeps safe m m'' where
  working := h'.working.trans h.working
  folder p hp := h'.folder p (h.folder p hp)
  file p b hsafe hp := h'.file p b hsafe (h.file p b hsafe hp)

theorem Keeps.mono {fewer : Place → Prop} (h : Keeps safe m m') (hf : ∀ p, fewer p → safe p) :
    Keeps fewer m m' :=
  ⟨h.working, h.folder, fun p b hp => h.file p b (hf p hp)⟩

theorem Keeps.place_eq (h : Keeps safe m m') (path : String) : m'.place path = m.place path := by
  rw [place, place, h.working]

theorem Keeps.follow? {ps : List String} (h : Keeps safe m m') (hq : m.follow? p ps = some q) :
    m'.follow? p ps = some q := by
  induction ps generalizing p with
  | nil => exact hq
  | cons piece rest ih =>
      rw [follow?_cons] at hq ⊢
      split at hq
      · next hfolder =>
        obtain ⟨next, hnext, hrest⟩ := Option.bind_eq_some_iff.mp hq
        rw [if_pos (h.folder p hfolder), hnext]
        exact ih hrest
      · cases hq

/-- What is found under a path is found there after a change that keeps it. -/
theorem Keeps.locate? (h : Keeps safe m m') (hp : m.locate? path = some p) :
    m'.locate? path = some p := by
  unfold Memory.locate? at hp ⊢
  have hstart : m'.start path = m.start path := by rw [start, start, h.working]
  split at hp
  · cases hp
  · next hpath =>
    rw [if_neg hpath, hstart]
    exact h.follow? hp

theorem exists_locate?_of_contents (h : m.contents path = .bytes b) :
    m.locate? path = some (m.place path) ∧ m.at? (m.place path) = .bytes b := by
  rw [contents] at h
  split at h
  · next p hp =>
    rw [← locate?_eq_place hp]
    exact ⟨hp, h⟩
  · cases h

/-- **A file is kept if its place is.** -/
theorem Keeps.contents (h : Keeps safe m m') (hsafe : safe (m.place path))
    (hb : m.contents path = .bytes b) : m'.contents path = .bytes b := by
  obtain ⟨hp, hat⟩ := exists_locate?_of_contents hb
  rw [Memory.contents, h.locate? hp]
  exact h.file _ b hsafe hat

theorem isFolder_at? (m : Memory) (p : Place) :
    (m.at? p).isFolder = (p.names.isEmpty || m.folders.contains p) := by
  unfold at?
  split
  · next h => rw [h]; rfl
  · next h =>
    rw [Bool.eq_false_iff.mpr h]
    split <;> rfl

theorem at?_put_self (h : (m.at? p).isFolder = false) (b : ByteArray) :
    (m.put p b).at? p = .bytes b := by
  rw [isFolder_at?] at h
  rw [at?, put, if_neg (by rw [h]; exact nofun)]
  simp

/-- Bytes that are put into a file leave the others as they are. -/
theorem keeps_put (m : Memory) (p : Place) (b : ByteArray) : Keeps (· ≠ p) m (m.put p b) where
  working := rfl
  folder q hq := by
    rw [isFolder_at?] at hq ⊢
    exact hq
  file q c hne hq := by
    have hfind : (m.put p b).files.find? (fun file => file.1 == q) =
        m.files.find? fun file => file.1 == q := by
      rw [put, List.find?_cons_of_neg (by simpa using Ne.symm hne), List.find?_filter]
      congr 1
      funext file
      by_cases hfile : file.1 = q
      · simp [hfile, hne]
      · simp [hfile]
    unfold at? at hq ⊢
    rw [hfind]
    exact hq

/-- A new folder leaves the files as they are. -/
theorem keeps_folder (h : m.at? p = .absent) :
    Keeps (fun _ => True) m { m with folders := m.folders ++ [p] } where
  working := rfl
  folder q hq := by
    rw [isFolder_at?] at hq ⊢
    rw [List.contains_append, ← Bool.or_assoc, hq]
    rfl
  file q c _ hq := by
    have hne : q ≠ p := by
      rintro rfl
      rw [h] at hq
      cases hq
    unfold at? at hq ⊢
    split at hq
    · cases hq
    · next hfolder =>
      rw [if_neg]
      · exact hq
      · simpa [hne] using hfolder

theorem keeps_makeFrom {ps : List String} (h : m.makeFrom p ps = some m') :
    Keeps (fun _ => True) m m' := by
  induction ps generalizing m p with
  | nil =>
      rw [← Option.some.inj h]
      exact .refl _ m
  | cons piece rest ih =>
      unfold makeFrom at h
      split at h
      · exact ih h
      · exact ih h
      · exact ih h
      · split at h
        · dsimp only at h
          split at h
          · exact ih h
          · next habsent => exact (keeps_folder habsent).trans (ih h)
          · cases h
        · cases h

/-- **Making folders keeps all files.** -/
theorem keeps_makeFolders (h : m.makeFolders path = some m') : Keeps (fun _ => True) m m' := by
  unfold makeFolders at h
  split at h
  · exact keeps_makeFrom h
  · cases h

/-- **What is written to a path is at its place, and the other files are kept.** -/
theorem keeps_write (h : m.write path b = some m') :
    Keeps (· ≠ m.place path) m m' ∧ m'.at? (m.place path) = .bytes b := by
  unfold write at h
  split at h
  · next p hp =>
    rw [← locate?_eq_place hp]
    split at h
    · cases h
    · next hfolder =>
      rw [← Option.some.inj h]
      exact ⟨keeps_put m p b, at?_put_self (Bool.eq_false_iff.mpr hfolder) b⟩
  · cases h

/-- A change succeeds, or there is none. -/
theorem attempt_cases (change : Memory → Option Memory) (m : Memory) :
    (∃ after, change m = some after ∧ ((attempt change).run m).run = (true, after)) ∨
      ((attempt change).run m).run = (false, m) := by
  have hrun : ((attempt change).run m).run = attempt change m := rfl
  rw [hrun, attempt]
  cases hchange : change m with
  | none => exact .inr rfl
  | some after => exact .inl ⟨after, rfl, rfl⟩

end Memory
end Files
end Chronicle
