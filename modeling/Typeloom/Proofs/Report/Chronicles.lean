import Typeloom.Proofs.Report.Scripted

/-!
# Chronicles

A chronicle says three things at once about a computation: that it comes to an end, that everything
it does on its channel is of an allowed kind, and what its value has to do with what was done.
There is one rule for every way to put computations together.
-/

namespace Typeloom

namespace Reporting

/-- A computation comes to an end after acts that are allowed.  A value that it yields has a
property together with these acts. -/
def Chronicles {α : Type} (allowed : Act → Prop) (post : Transcript → α → Prop)
    (action : Reporting α) : Prop :=
  ∃ transcript result, Ends action transcript result ∧ (∀ act ∈ transcript, allowed act) ∧
    ∀ value, result = .ok value → post transcript value

variable {α β : Type} {allowed : Act → Prop}

theorem Chronicles.mono {action : Reporting α} {weak strong : Transcript → α → Prop}
    (chronicles : Chronicles allowed strong action)
    (implies : ∀ transcript value, (∀ act ∈ transcript, allowed act) → strong transcript value →
      weak transcript value) :
    Chronicles allowed weak action := by
  obtain ⟨transcript, result, ends, areAllowed, holds⟩ := chronicles
  exact ⟨transcript, result, ends, areAllowed, fun value isValue =>
    implies transcript value areAllowed (holds value isValue)⟩

theorem Chronicles.loosen {action : Reporting α} {post : Transcript → α → Prop}
    {allowedToo : Act → Prop} (chronicles : Chronicles allowed post action)
    (implies : ∀ act, allowed act → allowedToo act) : Chronicles allowedToo post action := by
  obtain ⟨transcript, result, ends, areAllowed, holds⟩ := chronicles
  exact ⟨transcript, result, ends, fun act occurs => implies act (areAllowed act occurs), holds⟩

theorem chronicles_pure {value : α} {post : Transcript → α → Prop} (holds : post [] value) :
    Chronicles allowed post (pure value) := by
  refine ⟨[], .ok value, ends_pure value, by simp, ?_⟩
  rintro _ ⟨⟩
  exact holds

theorem chronicles_ofExcept {result : Except Fault α} {post : Transcript → α → Prop}
    (holds : ∀ value, result = .ok value → post [] value) :
    Chronicles allowed post (ofExcept result) :=
  ⟨[], result, ends_ofExcept result, by simp, holds⟩

theorem chronicles_notify {diagnostic : Diagnostic} {post : Transcript → Unit → Prop}
    (isAllowed : allowed (.notify diagnostic)) (holds : post [.notify diagnostic] ()) :
    Chronicles allowed post (notify diagnostic) :=
  ⟨[.notify diagnostic], .ok (), ends_notify diagnostic, by simpa using isAllowed,
    fun _ _ => holds⟩

theorem chronicles_poll {post : Transcript → Unit → Prop} (isAllowed : allowed .poll)
    (holds : post [.poll] ()) : Chronicles allowed post poll :=
  ⟨[.poll], .ok (), ends_poll, by simpa using isAllowed, fun _ _ => holds⟩

theorem chronicles_bind {action : Reporting α} {next : α → Reporting β}
    {post : Transcript → β → Prop}
    (first : Chronicles allowed (fun transcript value =>
      Chronicles allowed (fun rest => post (transcript ++ rest)) (next value)) action) :
    Chronicles allowed post (action >>= next) := by
  obtain ⟨transcript, result, ends, areAllowed, holds⟩ := first
  cases result with
  | error fault =>
      refine ⟨transcript, .error fault, ends.bind_error next, areAllowed, ?_⟩
      rintro _ ⟨⟩
  | ok value =>
      obtain ⟨rest, last, endsNext, restAllowed, holdsNext⟩ := holds value rfl
      refine ⟨transcript ++ rest, last, ends.bind endsNext, ?_, holdsNext⟩
      exact List.forall_mem_append.mpr ⟨areAllowed, restAllowed⟩

/-- What a computation has done when it has returned a value. -/
theorem Chronicles.of_returned {action : Reporting α} {post : Transcript → α → Prop}
    (chronicles : Chronicles allowed post action) {channel after : Channel} {value : α}
    (returned : onChannel action channel = (.ok value, after)) :
    ∃ transcript, after = Transcript.apply transcript channel ∧ (∀ act ∈ transcript, allowed act) ∧
      post transcript value := by
  obtain ⟨transcript, result, ends, areAllowed, holds⟩ := chronicles
  obtain ⟨isValue, isAfter⟩ := ends.of_returned returned
  exact ⟨transcript, isAfter, areAllowed, holds value isValue⟩

end Reporting

end Typeloom
