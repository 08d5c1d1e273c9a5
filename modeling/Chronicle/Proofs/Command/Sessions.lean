import Chronicle.Command.Session

/-!
# What sessions come to

A session is followed step by step (`Session.Comes`): which result it comes to, and which state of
the files it leaves. What was printed and logged before counts for neither, so printing and logging
are passed over.
-/

namespace Chronicle
namespace Command
namespace Session

variable {ε ε' α β σ : Type}

/-- From the state `s` a session comes to a result and leaves a state as `Q` says, whatever was
printed and logged before. -/
def Comes (x : Session ε (StateM σ) α) (s : σ) (Q : Except ε α → σ → Prop) : Prop :=
  ∀ t, Q ((x.run.run t).run s).run.1.1 ((x.run.run t).run s).run.2

variable {x : Session ε (StateM σ) α} {f : α → Session ε (StateM σ) β} {s : σ}
  {Q : Except ε β → σ → Prop} {R : Except ε α → σ → Prop}

theorem comes_pure {a : α} (h : R (.ok a) s) : Comes (pure a) s R :=
  fun _ => h

theorem comes_throw {e : ε} (h : R (.error e) s) : Comes (throw e) s R :=
  fun _ => h

theorem comes_throw_bind {e : ε} (h : Q (.error e) s) : (throw e >>= f).Comes s Q :=
  fun _ => h

theorem Comes.mono {S : Except ε α → σ → Prop} (h : x.Comes s R)
    (hRS : ∀ result after, R result after → S result after) : x.Comes s S :=
  fun t => hRS _ _ (h t)

/-- A session goes on after a part that succeeds, and ends with one that fails. -/
theorem Comes.bind (hx : x.Comes s R) (hok : ∀ a after, R (.ok a) after → (f a).Comes after Q)
    (herror : ∀ e after, R (.error e) after → Q (.error e) after) : (x >>= f).Comes s Q := by
  intro t
  have hx := hx t
  rw [ExceptT.run_bind, StateT.run_bind, StateT.run_bind]
  generalize (x.run.run t).run s = out at hx ⊢
  obtain ⟨⟨result, t'⟩, after⟩ := out
  cases result with
  | ok a => exact hok a after hx t'
  | error e => exact herror e after hx

theorem Comes.after_log {records : List Log.Record} {rest : Unit → Session ε (StateM σ) β}
    (h : (rest ()).Comes s Q) : (log records >>= rest).Comes s Q :=
  fun _ => h _

theorem Comes.after_print {lines : List String} {rest : Unit → Session ε (StateM σ) β}
    (h : (rest ()).Comes s Q) : (print lines >>= rest).Comes s Q :=
  fun _ => h _

theorem Comes.after_ask {access : StateM σ α}
    (h : (f (access.run s).run.1).Comes (access.run s).run.2 Q) : (ask access >>= f).Comes s Q :=
  fun t => h t

theorem comes_log {records : List Log.Record} {S : Except ε Unit → σ → Prop} (h : S (.ok ()) s) :
    (log records : Session ε (StateM σ) Unit).Comes s S :=
  fun _ => h

/-- A question that changes nothing is answered, or ends the session. -/
theorem Comes.after_expect {access : StateM σ (Except ε α)} (hstate : (access.run s).run.2 = s)
    (hok : ∀ a, (f a).Comes s Q) (herror : ∀ e, Q (.error e) s) :
    (expect access >>= f).Comes s Q := by
  have hexpect : (expect access).Comes s fun _ after => after = s := fun _ => hstate
  refine .bind hexpect ?_ ?_
  · rintro a after rfl
    exact hok a
  · rintro e after rfl
    exact herror e

theorem Comes.within {wrap : ε → ε'} {S : Except ε' α → σ → Prop}
    (h : x.Comes s fun result after => S (result.mapError wrap) after) :
    (Session.within wrap x).Comes s S :=
  fun t => h t

end Session
end Command
end Chronicle
