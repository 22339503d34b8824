import PromptScript.ApiCall
import PromptScript.Proofs.Text.Search

/-!
# Calls written and read back

The call that a text states is stated by its own written form too.
-/

namespace PromptScript.ApiCall

open Text (trim isSpace splitFirst? splitWord?)

/-- The written form of a call after its keyword. -/
def arguments (call : ApiCall) : Text :=
  call.target.render ++ (if call.payload.isEmpty then [] else " WITH ".toList ++ call.payload)

/-- A call is written as its keyword and its arguments. -/
theorem render_eq (call : ApiCall) : call.render = "CALL API ".toList ++ call.arguments := by
  unfold render arguments
  exact List.append_assoc ..

/-- The target that a word names is written as the word. -/
theorem render_of_target? {word : Text} {target : ApiTarget} (h : target? word = .ok target) :
    target.render = word := by
  unfold target? at h
  split at h
  · cases h
  · cases h
    rfl
  · split at h
    · rename_i c owner d endpoint hsplit
      cases h
      obtain ⟨x, hx, hword, -⟩ := Text.splitFirst?_eq_some hsplit
      have hdot : x = '.' := by simpa using hx
      rw [hword, hdot]
      rfl
    · cases h

/-- A target is named by a word. -/
theorem ne_nil_of_target? {word : Text} {target : ApiTarget} (h : target? word = .ok target) :
    word ≠ [] := by
  rintro rfl
  cases h

/-- The word that names the target of a text, and the text after it. -/
def cut (t : Text) : Text × Text :=
  match splitFirst? isSpace t with
  | some (word, rest) => (word, trim rest)
  | none => (t, [])

/-- A call is read as a target, from the first word, and a payload, from what comes after it. -/
theorem ofText_eq (t : Text) : ofText t = (do
    let target ← target? (cut (trim t)).1
    let payload ← payload? (cut (trim t)).2
    return ⟨target, payload, Params.ofBody (payloadBody payload)⟩) := by
  cases hsplit : splitFirst? isSpace (trim t) <;> simp only [ofText, cut, hsplit]

/-- What makes a text state a call. -/
theorem ofText_eq_ok_iff {t : Text} {call : ApiCall} :
    ofText t = .ok call ↔ target? (cut (trim t)).1 = .ok call.target ∧
      payload? (cut (trim t)).2 = .ok call.payload ∧
        call.params = Params.ofBody (payloadBody call.payload) := by
  rw [ofText_eq]
  cases target? (cut (trim t)).1 with
  | error problem => exact ⟨(nomatch ·), fun h => nomatch h.1⟩
  | ok target =>
    cases payload? (cut (trim t)).2 with
    | error problem => exact ⟨(nomatch ·), fun h => nomatch h.2.1⟩
    | ok payload =>
      obtain ⟨callTarget, callPayload, params⟩ := call
      constructor
      · intro h
        have hcall := ApiCall.mk.inj (Except.ok.inj h)
        exact ⟨by rw [hcall.1], by rw [hcall.2.1], by rw [← hcall.2.2, hcall.2.1]⟩
      · rintro ⟨htarget, hpayload, hparams⟩
        cases htarget
        cases hpayload
        exact congrArg Except.ok (congrArg (ApiCall.mk callTarget callPayload) hparams.symm)

/-- The word that names a target holds no white space. -/
theorem solid_cut (t : Text) : (cut t).1.all (!isSpace ·) = true := by
  rw [cut]
  cases hsplit : splitFirst? isSpace t with
  | none => exact Text.splitFirst?_eq_none_iff.mp hsplit
  | some parts =>
    obtain ⟨c, -, -, hword⟩ := Text.splitFirst?_eq_some hsplit
    exact hword

/-- A payload is trimmed, and it is found after its word. -/
theorem trim_of_payload? {rest payload : Text} (h : payload? rest = .ok payload) :
    trim payload = payload := by
  unfold payload? at h
  split at h
  · cases h
    rfl
  · split at h
    · rename_i found hsplit
      cases h
      obtain ⟨parts, -, hparts⟩ := Option.map_eq_some_iff.mp hsplit
      rw [← (Prod.mk.inj hparts).2, Text.trim_trim]
    · cases h

/-- A payload after the word WITH and a blank is read back. -/
theorem payload?_with {payload : Text} (h : trim payload = payload) :
    payload? ("WITH".toList ++ ' ' :: payload) = .ok payload := by
  have hsplit : splitWord? "WITH".toList ("WITH".toList ++ ' ' :: payload) = some ([], payload) := by
    rw [splitWord?, Text.splitWordFrom?_append_cons (by decide) (by decide) (by decide),
      Text.splitWordFrom?_self (by decide)]
    simp only [Option.map_some, List.nil_append, Text.trim_cons (c := ' ') rfl, h]
    rfl
  rw [payload?, if_neg (by simp), hsplit]

/-- A call whose target is read back from one word, with a trimmed payload and the parameters of
that. -/
structure IsWellFormed (call : ApiCall) : Prop where
  /-- The written target names the target. -/
  target : target? call.target.render = .ok call.target
  /-- The written target is one word. -/
  target_solid : call.target.render.all (!isSpace ·) = true
  /-- The payload is trimmed. -/
  payload_trim : trim call.payload = call.payload
  /-- The parameters are those of the payload. -/
  params : call.params = Params.ofBody (payloadBody call.payload)

/-- A call that a text states is well formed. -/
theorem isWellFormed_of_ofText {t : Text} {call : ApiCall} (h : ofText t = .ok call) :
    call.IsWellFormed := by
  obtain ⟨htarget, hpayload, hparams⟩ := ofText_eq_ok_iff.mp h
  have hword := render_of_target? htarget
  have hsolid := solid_cut (trim t)
  rw [← hword] at htarget hsolid
  exact ⟨htarget, hsolid, trim_of_payload? hpayload, hparams⟩

/-- The written form of a well-formed call states the call. -/
theorem IsWellFormed.ofText_arguments {call : ApiCall} (h : call.IsWellFormed) :
    ofText call.arguments = .ok call := by
  have hne := ne_nil_of_target? h.target
  refine ofText_eq_ok_iff.mpr ?_
  by_cases hempty : call.payload = []
  · have harguments : call.arguments = call.target.render := by simp [arguments, hempty]
    have hcut : cut (trim call.arguments) = (call.target.render, []) := by
      rw [harguments, Text.trim_of_solid h.target_solid, cut,
        Text.splitFirst?_eq_none_iff.mpr h.target_solid]
    rw [hcut, hempty]
    exact ⟨h.target, rfl, by rw [h.params, hempty]⟩
  · have harguments : call.arguments =
        call.target.render ++ ' ' :: ("WITH".toList ++ ' ' :: call.payload) := by
      simp [arguments, hempty]
    have hends := (Text.trim_eq_self_iff.mp h.payload_trim).2
    have hlast (s : Text) : (s ++ call.payload).getLast? = call.payload.getLast? := by
      rw [List.getLast?_append]
      cases hl : call.payload.getLast? with
      | none => exact absurd (List.getLast?_eq_none_iff.mp hl) hempty
      | some c => rfl
    have hwith : trim ("WITH".toList ++ ' ' :: call.payload) =
        "WITH".toList ++ ' ' :: call.payload := by
      refine Text.trim_eq_self_iff.mpr ⟨rfl, ?_⟩
      have happend : "WITH".toList ++ ' ' :: call.payload = "WITH ".toList ++ call.payload := rfl
      rw [happend, hlast, hends]
    have hall : trim call.arguments = call.arguments := by
      refine Text.trim_eq_self_iff.mpr ⟨?_, ?_⟩
      · have hsolid := h.target_solid
        rw [harguments]
        cases hw : call.target.render with
        | nil => exact absurd hw hne
        | cons c word =>
          rw [hw, List.all_cons, Bool.and_eq_true] at hsolid
          simpa using hsolid.1
      · have happend : call.arguments = call.target.render ++ " WITH ".toList ++ call.payload := by
          rw [harguments, List.append_assoc]
          rfl
        rw [happend, hlast, hends]
    have hcut : cut (trim call.arguments) =
        (call.target.render, "WITH".toList ++ ' ' :: call.payload) := by
      rw [hall, harguments, cut, Text.splitFirst?_append_cons h.target_solid (by decide)]
      simp only [hwith]
    rw [hcut]
    exact ⟨h.target, payload?_with h.payload_trim, h.params⟩

/-- The written form of a call that a text states, states that call. -/
theorem ofText_arguments {t : Text} {call : ApiCall} (h : ofText t = .ok call) :
    ofText call.arguments = .ok call :=
  (isWellFormed_of_ofText h).ofText_arguments

/-- White space around a text makes no difference to the call that it states. -/
theorem ofText_trim (t : Text) : ofText (trim t) = ofText t := by
  rw [ofText_eq, ofText_eq, Text.trim_trim]

/-- The written form of a call that a line states is a line. -/
theorem not_mem_arguments {t : Text} {call : ApiCall} (h : ofText t = .ok call) (ht : '\n' ∉ t) :
    '\n' ∉ call.arguments := by
  obtain ⟨htarget, hpayload, -⟩ := ofText_eq_ok_iff.mp h
  have hword : '\n' ∉ call.target.render := by
    intro hmem
    rw [render_of_target? htarget] at hmem
    have hsolid := List.all_eq_true.mp (solid_cut (trim t)) _ hmem
    exact absurd hsolid (by decide)
  have hrest : '\n' ∉ (cut (trim t)).2 := by
    rw [cut]
    cases hsplit : splitFirst? isSpace (trim t) with
    | none => simp
    | some parts =>
      obtain ⟨c, -, heq, -⟩ := Text.splitFirst?_eq_some hsplit
      intro hmem
      refine ht (Text.mem_of_mem_trim ?_)
      rw [heq]
      exact List.mem_append_right _ (List.mem_cons_of_mem c (Text.mem_of_mem_trim hmem))
  have hfound : '\n' ∉ call.payload := by
    unfold payload? at hpayload
    split at hpayload
    · rw [← Except.ok.inj hpayload]
      simp
    · split at hpayload
      · rename_i payload hsplit
        rw [← Except.ok.inj hpayload]
        obtain ⟨parts, hparts, heq⟩ := Option.map_eq_some_iff.mp hsplit
        intro hmem
        rw [Text.splitWordFrom?_eq_some hparts] at hrest
        rw [← (Prod.mk.inj heq).2] at hmem
        exact hrest (List.mem_append_right _ (Text.mem_of_mem_trim hmem))
      · cases hpayload
  rw [arguments]
  intro hmem
  rcases List.mem_append.mp hmem with hmem | hmem
  · exact hword hmem
  · split at hmem
    · cases hmem
    · rcases List.mem_append.mp hmem with hmem | hmem
      · exact absurd hmem (by decide)
      · exact hfound hmem

end PromptScript.ApiCall
