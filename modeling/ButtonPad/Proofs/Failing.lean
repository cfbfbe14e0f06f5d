import ButtonPad.Proofs.Legibility

/-! # What a failing action leaves behind

A shortcut and a text are judged before anything is sent, so they fail without a trace. Credentials
are two texts, and the second one is judged when the first one is typed (`Builtin.events_of_fail`).
-/
namespace ButtonPad.Builtin

theorem ending_credentials (t : Timing) (handle : Handle) (arg1 arg2 : List UInt8) :
    (credentials.act t handle arg1 arg2).ending =
      if arg1.length ≤ Typing.textLimit ∧ arg2.length ≤ Typing.textLimit then some .ok
      else some .fail := by
  simp only [act, Typing.act_eq]
  by_cases hfirst : arg1.length ≤ Typing.textLimit
  · by_cases hsecond : arg2.length ≤ Typing.textLimit <;> simp [hfirst, hsecond, Act.andThen]
  · simp [hfirst, Act.andThen]

/-- What is done by a shipped action that fails. -/
theorem events_of_fail {b : Builtin} {t : Timing} {handle : Handle} {arg1 arg2 : List UInt8}
    (h : (b.act t handle arg1 arg2).ending = some .fail) :
    (b.act t handle arg1 arg2).events =
      if b = .credentials ∧ arg1.length ≤ Typing.textLimit then Typing.typed t handle arg1
      else [] := by
  cases b with
  | shortcut =>
    rw [act] at h ⊢
    split at h
    case isTrue => cases h
    case isFalse hinvalid => rw [if_neg hinvalid, if_neg (by simp)]
  | credentials =>
    rw [ending_credentials] at h
    rw [events_credentials]
    by_cases hfirst : arg1.length ≤ Typing.textLimit
    · have hsecond : ¬arg2.length ≤ Typing.textLimit := by
        intro hle
        rw [if_pos ⟨hfirst, hle⟩] at h
        cases h
      simp [hfirst, hsecond]
    · simp [hfirst]

/-- **What fails has done nothing but type a first text.** In a run without a bound, on any clock
and with any transport, a shipped action that fails leaves all as it was, unless it types
credentials whose first text fits. These fail because the second text is too long, and have done
what typing the first text alone does, which does not fail. -/
theorem failure_leaves_first_text {σ : Type} (rig : Rig σ) (w : World σ) (b : Builtin)
    (t : Timing) (handle : Handle) (arg1 arg2 : List UInt8)
    (h : (b.act t handle arg1 arg2).ending = some .fail) :
    let endless : World σ := { w with bound := .none }
    let after := rig.perform (b.act t handle arg1 arg2).events endless
    let first := Typing.act t handle arg1
    (¬(b = .credentials ∧ arg1.length ≤ 32) → after = endless) ∧
      (b = .credentials → arg1.length ≤ 32 →
        32 < arg2.length ∧ first.ending = some .ok ∧
          after = rig.perform first.events endless) := by
  intro endless after first
  have hevents := events_of_fail h
  have hafter : after = rig.perform (b.act t handle arg1 arg2).events endless := rfl
  constructor
  · intro hnone
    rw [hafter, hevents, Typing.textLimit, if_neg hnone]
    rfl
  · rintro rfl hfirst
    have htyped : first = { events := Typing.typed t handle arg1, ending := some .ok } :=
      Typing.act_of_le hfirst t handle
    rw [ending_credentials] at h
    refine ⟨Nat.lt_of_not_le fun hsecond => ?_, by rw [htyped], ?_⟩
    · rw [Typing.textLimit, if_pos ⟨hfirst, hsecond⟩] at h
      cases h
    · rw [hafter, hevents, Typing.textLimit, if_pos ⟨rfl, hfirst⟩, htyped]

/-- Credentials whose second text is too long have typed the first one; a shortcut without keys has
pressed nothing. -/
theorem failure_leaves_first_text_specimen :
    let long : List UInt8 := List.replicate 33 0x61
    let done := fun b arg1 arg2 =>
      (Specimen.rig.perform (act {} 1 arg1 arg2 b).events Specimen.world).eventsFrom 0
    ((act {} 1 [0x61] long .credentials).ending = some .fail ∧
      done .credentials [0x61] long = [.report (.key 1 0 .capsLock false),
        .report (.key 1 0 .a true), .pause 100, .report (.key 1 0 .a false)]) ∧
      (act {} 1 [0x02] [] .shortcut).ending = some .fail ∧ done .shortcut [0x02] [] = [] := by
  intro long done
  have hcredentials : (act {} 1 [0x61] long .credentials).ending = some .fail := by decide
  have hshortcut : (act {} 1 [0x02] [] .shortcut).ending = some .fail := rfl
  obtain ⟨-, htyped⟩ := failure_leaves_first_text Specimen.rig Specimen.world _ _ _ _ _ hcredentials
  obtain ⟨hidle, -⟩ := failure_leaves_first_text Specimen.rig Specimen.world _ _ _ _ _ hshortcut
  obtain ⟨-, -, hafter⟩ := htyped rfl (by decide)
  refine ⟨⟨hcredentials, ?_⟩, hshortcut, ?_⟩
  · exact (congrArg (World.eventsFrom · 0) hafter).trans (by decide +kernel)
  · exact (congrArg (World.eventsFrom · 0) (hidle (by decide))).trans (by decide +kernel)

/-- That a shipped action which fails has done nothing at all does not hold of credentials with a
first text of one character and a second one of 33. -/
theorem failure_is_not_idle :
    ¬ ∀ (b : Builtin) (t : Timing) (handle : Handle) (arg1 arg2 : List UInt8),
      (b.act t handle arg1 arg2).ending = some .fail →
        (Specimen.rig.perform (b.act t handle arg1 arg2).events Specimen.world).eventsFrom 0 =
          [] := by
  intro hidle
  have hfail : (act {} 1 [0x61] (List.replicate 33 0x61) .credentials).ending = some .fail := by
    decide
  have hnothing := hidle _ _ _ _ _ hfail
  have hcapsLock : .report (.key 1 0 .capsLock false) ∈ (Specimen.rig.perform
      (act {} 1 [0x61] (List.replicate 33 0x61) .credentials).events Specimen.world).eventsFrom
        0 := by decide +kernel
  rw [hnothing] at hcapsLock
  exact List.not_mem_nil hcapsLock

end ButtonPad.Builtin
