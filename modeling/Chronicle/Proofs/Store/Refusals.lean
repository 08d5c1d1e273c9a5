import Chronicle.Proofs.Store.Calls

/-!
# Refusals of mutations

A mutation that is not accepted is refused for one reason, the first that applies: there is no such
attribute, the mutation is late, or its sum does not exist (`Store.mutate_eq_error_iff`). A sum does
not exist if what is held is no 32-bit integer, or if it is one and the sum is not
(`Track.sum_eq_error_iff`).
-/

namespace Chronicle

namespace Value

/-- Nothing can be added to the value, or the sum is no integer of 32 bits; `null` counts as 0. -/
def Unaddable (v : Value) (delta : Int32) : Prop :=
  v.kind? = some .long ∨ v.kind? = some .string ∨
    (v.int?.getD 0).toInt + delta.toInt < -2147483648 ∨
      2147483647 < (v.int?.getD 0).toInt + delta.toInt

end Value

namespace Track

/-- Why nothing can be added to what is held. -/
inductive Unsummable (k : Track) (delta : Int32) : SumError → Prop
  | notAnInt : k.ongoing ≠ .null → k.ongoing.int? = none → Unsummable k delta (.notAnInt k.ongoing)
  | overflow {n : Int32} : k.ongoing = .int n →
      (n.toInt + delta.toInt < -2147483648 ∨ 2147483647 < n.toInt + delta.toInt) →
        Unsummable k delta (.overflow n)

theorem sum_eq_error_iff {k : Track} {delta : Int32} {e : SumError} :
    k.sum delta = .error e ↔ k.Unsummable delta e := by
  unfold sum
  constructor
  · intro h
    cases hk : k.ongoing with
    | null => rw [hk] at h; cases h
    | int n =>
        simp only [hk] at h
        split at h
        · cases h
        · obtain rfl := Except.error.inj h
          exact .overflow hk (by omega)
    | long n =>
        rw [hk] at h
        obtain rfl := Except.error.inj h
        exact hk ▸ .notAnInt (by simp [hk]) (by simp [hk, Value.int?])
    | text s =>
        rw [hk] at h
        obtain rfl := Except.error.inj h
        exact hk ▸ .notAnInt (by simp [hk]) (by simp [hk, Value.int?])
  · rintro (⟨hnull, hint⟩ | ⟨hk, hout⟩)
    · cases hk : k.ongoing with
      | null => exact absurd hk hnull
      | int n => rw [hk] at hint; cases hint
      | long n => rfl
      | text s => rfl
    · simp only [hk]
      rw [if_neg (by omega)]

/-- A sum does not exist if and only if the value held cannot be added to. -/
theorem exists_sum_eq_error_iff {k : Track} {delta : Int32} :
    (∃ e, k.sum delta = .error e) ↔ k.ongoing.Unaddable delta := by
  simp only [sum_eq_error_iff]
  have hlow := delta.le_toInt
  have hhigh := delta.toInt_lt
  constructor
  · rintro ⟨e, ⟨hnull, hint⟩ | ⟨hk, hout⟩⟩
    · cases hk : k.ongoing with
      | null => exact absurd hk hnull
      | int n => rw [hk] at hint; cases hint
      | long n => exact .inl rfl
      | text s => exact .inr (.inl rfl)
    · rw [hk]
      exact .inr (.inr hout)
  · intro h
    cases hk : k.ongoing with
    | null =>
        rw [hk] at h
        rcases h with h | h | h | h
        · cases h
        · cases h
        · have hzero : (0 : Int32).toInt = 0 := rfl
          simp only [Value.int?, Option.getD_none] at h
          omega
        · have hzero : (0 : Int32).toInt = 0 := rfl
          simp only [Value.int?, Option.getD_none] at h
          omega
    | int n =>
        rw [hk] at h
        rcases h with h | h | h
        · cases h
        · cases h
        · exact ⟨_, .overflow hk h⟩
    | long n => exact ⟨_, .notAnInt (by simp [hk]) (by rw [hk]; rfl)⟩
    | text s => exact ⟨_, .notAnInt (by simp [hk]) (by rw [hk]; rfl)⟩

end Track

namespace Store

/-- Why a mutation is refused. -/
inductive Refuses (s : Store) (q : Quark) (t : Int64) : Mutation → Refusal → Prop
  | unknownQuark {m : Mutation} : s.tree.contains q = false → Refuses s q t m (.unknownQuark q)
  | late {m : Mutation} {c : Int64} : s.tree.contains q = true → s.clock = some c → t < c →
      Refuses s q t m (.late t c)
  | notAnInt {delta : Int32} {v : Value} : s.permit q t = .ok () →
      (s.track q).Unsummable delta (.notAnInt v) →
        Refuses s q t (.increment delta) (.notAnInt delta (s.tree.pathText q) v)
  | overflow {delta n : Int32} : s.permit q t = .ok () →
      (s.track q).Unsummable delta (.overflow n) →
        Refuses s q t (.increment delta) (.overflow (s.tree.pathText q) n delta)

variable {s : Store} {q : Quark} {t : Int64} {m : Mutation} {r : Refusal}

theorem permit_eq_error_iff : s.permit q t = .error r ↔
    (s.tree.contains q = false ∧ r = .unknownQuark q) ∨
      ∃ c, s.tree.contains q = true ∧ s.clock = some c ∧ t < c ∧ r = .late t c := by
  unfold permit
  by_cases hq : s.tree.contains q = true
  · cases hc : s.clock with
    | none => simp [hq]
    | some c => by_cases ht : t < c <;> simp [hq, ht, eq_comm]
  · simp [hq, eq_comm]

/-- A mutation is refused for one of four reasons, and the first that applies is told. -/
theorem mutate_eq_error_iff : s.mutate q t m = .error r ↔ s.Refuses q t m r := by
  constructor
  · intro h
    cases hp : s.permit q t with
    | error e =>
        rw [mutate_eq, hp] at h
        obtain rfl := Except.error.inj h
        rcases permit_eq_error_iff.mp hp with ⟨hq, rfl⟩ | ⟨c, hq, hc, ht, rfl⟩
        · exact .unknownQuark hq
        · exact .late hq hc ht
    | ok u =>
        rw [mutate_eq, hp] at h
        cases m with
        | increment delta =>
            cases hs : (s.track q).sum delta with
            | ok n => simp [bind, Except.bind, addsUp, hs, pure, Except.pure] at h
            | error e =>
                have hu := Track.sum_eq_error_iff.mp hs
                cases e with
                | notAnInt v =>
                    simp only [bind, Except.bind, addsUp, hs] at h
                    obtain rfl := Except.error.inj h
                    exact .notAnInt hp hu
                | overflow n =>
                    simp only [bind, Except.bind, addsUp, hs] at h
                    obtain rfl := Except.error.inj h
                    exact .overflow hp hu
        | _ => cases h
  · intro h
    rw [mutate_eq]
    cases h with
    | unknownQuark hq =>
        rw [permit_eq_error_iff.mpr (.inl ⟨hq, rfl⟩)]
        rfl
    | late hq hc ht =>
        rw [permit_eq_error_iff.mpr (.inr ⟨_, hq, hc, ht, rfl⟩)]
        rfl
    | notAnInt hp hu =>
        rw [hp]
        simp [bind, Except.bind, addsUp, Track.sum_eq_error_iff.mpr hu]
    | overflow hp hu =>
        rw [hp]
        simp [bind, Except.bind, addsUp, Track.sum_eq_error_iff.mpr hu]

/-! ### Each reason by itself -/

theorem refuses_unknownQuark_iff {p : Quark} :
    s.Refuses q t m (.unknownQuark p) ↔ s.tree.contains q = false ∧ p = q := by
  constructor
  · rintro ⟨hq⟩
    exact ⟨hq, rfl⟩
  · rintro ⟨hq, rfl⟩
    exact .unknownQuark hq

theorem refuses_late_iff {u c : Int64} :
    s.Refuses q t m (.late u c) ↔
      s.tree.contains q = true ∧ s.clock = some c ∧ t < c ∧ u = t := by
  constructor
  · rintro (_ | ⟨hq, hc, hlt⟩)
    exact ⟨hq, hc, hlt, rfl⟩
  · rintro ⟨hq, hc, hlt, rfl⟩
    exact .late hq hc hlt

theorem exists_refuses_mismatch_iff :
    (∃ r, s.Refuses q t m r ∧ r.mismatch?.isSome = true) ↔
      s.tree.contains q = true ∧ (∀ c ∈ s.clock, c ≤ t) ∧
        ∃ delta, m = .increment delta ∧ (s.ongoing q).Unaddable delta := by
  have hsum : ∀ {delta e}, (s.track q).Unsummable delta e → (s.ongoing q).Unaddable delta :=
    fun h => Track.exists_sum_eq_error_iff.mp ⟨_, Track.sum_eq_error_iff.mpr h⟩
  constructor
  · rintro ⟨r, h, hr⟩
    cases h with
    | unknownQuark _ => cases hr
    | late _ _ _ => cases hr
    | notAnInt hp hu =>
        obtain ⟨hq, hle⟩ := permit_eq_ok_iff.mp hp
        exact ⟨hq, hle, _, rfl, hsum hu⟩
    | overflow hp hu =>
        obtain ⟨hq, hle⟩ := permit_eq_ok_iff.mp hp
        exact ⟨hq, hle, _, rfl, hsum hu⟩
  · rintro ⟨hq, hle, delta, rfl, h⟩
    have hp := permit_eq_ok_iff.mpr ⟨hq, hle⟩
    obtain ⟨e, he⟩ := Track.exists_sum_eq_error_iff.mpr h
    have hu := Track.sum_eq_error_iff.mp he
    cases e with
    | notAnInt v => exact ⟨_, .notAnInt hp hu, rfl⟩
    | overflow n => exact ⟨_, .overflow hp hu, rfl⟩

/-- What is refused is refused for one of three reasons. -/
theorem exists_refuses_iff :
    (∃ r, s.Refuses q t m r) ↔
      s.tree.contains q = false ∨ (∃ c ∈ s.clock, t < c) ∨
        ∃ delta, m = .increment delta ∧ (s.ongoing q).Unaddable delta := by
  constructor
  · rintro ⟨r, h⟩
    cases hr : r.mismatch?.isSome with
    | true => exact .inr (.inr (exists_refuses_mismatch_iff.mp ⟨r, h, hr⟩).2.2)
    | false =>
        cases h with
        | unknownQuark hq => exact .inl hq
        | late _ hc hlt => exact .inr (.inl ⟨_, hc, hlt⟩)
        | notAnInt _ _ => cases hr
        | overflow _ _ => cases hr
  · intro h
    cases hq : s.tree.contains q with
    | false => exact ⟨_, .unknownQuark hq⟩
    | true =>
        by_cases hlate : ∃ c ∈ s.clock, t < c
        · obtain ⟨c, hc, hlt⟩ := hlate
          exact ⟨_, .late hq hc hlt⟩
        · have hle : ∀ c ∈ s.clock, c ≤ t := fun c hc =>
            Int64.not_lt.mp fun hlt => hlate ⟨c, hc, hlt⟩
          rcases h with h | h | h
          · rw [hq] at h
            cases h
          · exact absurd h hlate
          · obtain ⟨r, hr, -⟩ := exists_refuses_mismatch_iff.mpr ⟨hq, hle, h⟩
            exact ⟨r, hr⟩

end Store
end Chronicle
