/-!
# Results of checks and readers

What can be said of an `Except` that is no error, by the parts it is made of: a part after another,
a list of parts, a part under a map. Of a list of checks it is also said which error it comes to.
-/

namespace Chronicle

variable {ε α β : Type}

theorem bind_eq_ok_iff {x : Except ε α} {f : α → Except ε β} {b : β} :
    (x >>= f) = .ok b ↔ ∃ a, x = .ok a ∧ f a = .ok b := by
  cases x with
  | error e => simp [bind, Except.bind]
  | ok a => simp [bind, Except.bind]

theorem pure_eq_ok_iff {a b : α} : (pure a : Except ε α) = .ok b ↔ a = b := by
  simp [pure, Except.pure]

theorem map_eq_ok_iff {f : α → β} {x : Except ε α} {b : β} :
    x.map f = .ok b ↔ ∃ a, x = .ok a ∧ f a = b := by
  cases x <;> simp [Except.map]

/-- Of a list of checks the first that fails is told. -/
theorem forM_eq_error_iff {f : α → Except ε Unit} {l : List α} {e : ε} :
    l.forM f = .error e ↔ ∃ before a later, l = before ++ a :: later ∧
      (∀ b ∈ before, f b = .ok ()) ∧ f a = .error e := by
  induction l with
  | nil => exact ⟨nofun, fun ⟨before, _, _, h, _⟩ => by cases before <;> cases h⟩
  | cons b rest ih =>
      have hcons : (b :: rest).forM f = (f b >>= fun _ => rest.forM f) := rfl
      rw [hcons]
      cases hb : f b with
      | error e' =>
          constructor
          · intro h
            exact ⟨[], b, rest, rfl, nofun, hb.trans h⟩
          · rintro ⟨before, a, later, hsplit, hbefore, ha⟩
            cases before with
            | nil =>
                obtain ⟨rfl, -⟩ := List.cons.inj hsplit
                exact hb.symm.trans ha
            | cons c before =>
                obtain ⟨rfl, -⟩ := List.cons.inj hsplit
                rw [hbefore b List.mem_cons_self] at hb
                cases hb
      | ok u =>
          have hrest : ((.ok u : Except ε Unit) >>= fun _ => rest.forM f) = rest.forM f := rfl
          rw [hrest, ih]
          constructor
          · rintro ⟨before, a, later, rfl, hbefore, ha⟩
            exact ⟨b :: before, a, later, rfl, List.forall_mem_cons.mpr ⟨hb, hbefore⟩, ha⟩
          · rintro ⟨before, a, later, hsplit, hbefore, ha⟩
            cases before with
            | nil =>
                obtain ⟨rfl, -⟩ := List.cons.inj hsplit
                rw [hb] at ha
                cases ha
            | cons c before =>
                obtain ⟨rfl, rfl⟩ := List.cons.inj hsplit
                exact ⟨before, a, later, rfl, (List.forall_mem_cons.mp hbefore).2, ha⟩

/-- What is made of a list comes from its items. -/
theorem exists_of_mem_mapM {f : α → Except ε β} {l : List α} {l' : List β} (h : l.mapM f = .ok l') :
    ∀ b ∈ l', ∃ a ∈ l, f a = .ok b := by
  induction l generalizing l' with
  | nil =>
      obtain rfl := Except.ok.inj h
      simp
  | cons a rest ih =>
      rw [List.mapM_cons, bind_eq_ok_iff] at h
      obtain ⟨b, hb, h⟩ := h
      obtain ⟨bs, hbs, h⟩ := bind_eq_ok_iff.mp h
      obtain rfl := Except.ok.inj h
      intro c hc
      rcases List.mem_cons.mp hc with rfl | hc
      · exact ⟨a, List.mem_cons_self, hb⟩
      · obtain ⟨d, hd, hdc⟩ := ih hbs c hc
        exact ⟨d, List.mem_cons_of_mem _ hd, hdc⟩

/-- A list whose items are left as they are is left as it is. -/
theorem mapM_eq_self {f : α → Except ε α} {l : List α} (h : ∀ a ∈ l, f a = .ok a) :
    l.mapM f = .ok l := by
  induction l with
  | nil => rfl
  | cons a rest ih =>
      obtain ⟨ha, hrest⟩ := List.forall_mem_cons.mp h
      rw [List.mapM_cons, ha, ih hrest]
      rfl

end Chronicle
