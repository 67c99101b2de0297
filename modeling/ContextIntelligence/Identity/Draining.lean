import ContextIntelligence.Identity.Readiness

/-!
# Readiness never reopens and the lock is released last

Every event of a runtime has an `Effect`: it keeps the accounts of the verifications, it answers
`True` and submits probes only for a runtime that is current and open, and it keeps what the order
of the shutdown rests on. A failing initialization releases the lock itself, before it settles
(`failingInit_releases_first`).
-/

namespace ContextIntelligence.Identity.Readiness

open Lib.Runs

/-! ## What is claimed of a runtime -/

/-- A verification that waits for a slot or has an unsettled probe. -/
def Verification.admits : Verification → Bool
  | .waiting => true
  | .submitted _ probe => !probe.isSettled
  | .ended _ => false

def Verification.hasProbe : Verification → Bool
  | .submitted _ _ => true
  | _ => false

def Verification.answeredTrue : Verification → Bool
  | .submitted (.returned true) _ => true
  | .ended (.returned true) => true
  | _ => false

def Runtime.Counted (rt : Runtime) : Prop :=
  rt.admitted = rt.verifications.countP Verification.admits ∧ (rt.drained = true ↔ rt.admitted = 0)

/-- Between the two runtimes no verification has answered `True` and no probe was submitted. -/
def Quiet (rt rt' : Runtime) : Prop :=
  ∀ (j : Nat) v', rt'.verifications[j]? = some v' → v'.answeredTrue = true ∨ v'.hasProbe = true →
    ∃ v, rt.verifications[j]? = some v
      ∧ (v'.answeredTrue = true → v.answeredTrue = true) ∧ (v'.hasProbe = true → v.hasProbe = true)

def Init.passed : Init → Bool
  | .published _ => true
  | .finished (.owned _) => true
  | .settled (.owned _) => true
  | _ => false

def Init.failed : Init → Bool
  | .released _ => true
  | .finished .nothing | .finished .raised => true
  | .settled .nothing | .settled .raised => true
  | _ => false

def Init.isSettled : Init → Bool
  | .settled _ => true
  | _ => false

def Lifespan.ended : Lifespan → Bool
  | .off | .opened => false
  | _ => true

def Lifespan.afterInit : Lifespan → Bool
  | .off | .opened | .waitInit => false
  | _ => true

def Lifespan.afterProbes : Lifespan → Bool
  | .off | .opened | .waitInit | .waitProbes => false
  | _ => true

structure Runtime.Sound (rt : Runtime) : Prop where
  probes : ∀ v ∈ rt.verifications, v.hasProbe = true → rt.init.passed = true
  closing : rt.lifespan.ended = true → rt.closing = true
  settled : rt.lifespan.afterInit = true → rt.init.isSettled = true
  idle : rt.lifespan.afterProbes = true → ∀ v ∈ rt.verifications, v.unsettled = false
  byInit : rt.lock = .releasedByInit → rt.init.failed = true
  byCleanup : rt.lock = .releasedByCleanup → rt.lifespan.afterProbes = true

theorem Quiet.refl (rt : Runtime) : Quiet rt rt := fun _ v hv _ => ⟨v, hv, id, id⟩

theorem Quiet.of_eq {rt rt' : Runtime} (h : rt'.verifications = rt.verifications) :
    Quiet rt rt' := by
  intro j v hv _
  exact ⟨v, h ▸ hv, id, id⟩

theorem Quiet.trans {rt rt' rt'' : Runtime} (h : Quiet rt rt') (h' : Quiet rt' rt'') :
    Quiet rt rt'' := by
  intro j v'' hv'' hsome
  obtain ⟨v', hv', htrue, hprobe⟩ := h' j v'' hv'' hsome
  obtain ⟨v, hv, htrue', hprobe'⟩ := h j v' hv' (hsome.imp htrue hprobe)
  exact ⟨v, hv, fun hs => htrue' (htrue hs), fun hs => hprobe' (hprobe hs)⟩

/-! ## Effects -/

/-- The view of a runtime that is current, open and ready. -/
structure Open (i : Nat) (x : View) : Prop where
  current : x.1.current = i
  closing : x.2.closing = false
  ready : x.1.identityState = .ready

/-- Readiness is published only behind the initialization of the current runtime. -/
def Published (i : Nat) (x : View) : Prop :=
  x.1.identityState = .ready → x.1.current = i → x.2.init.passed = true

/-- What every event of the runtime `i` does. -/
structure Effect (i : Nat) (x y : View) : Prop where
  current : y.1.current = x.1.current
  closing : x.2.closing = true → y.2.closing = true
  quiet : x.2.closing = true ∨ x.1.current ≠ i → Quiet x.2 y.2
  counted : x.2.Counted → y.2.Counted
  passed : x.2.init.passed = true → y.2.init.passed = true
  ready : y.1.identityState = .ready →
    x.1.identityState = .ready ∨ (x.1.current = i ∧ y.2.init.passed = true)
  sound : Published i x → x.2.Sound → y.2.Sound

namespace Effect

variable {i : Nat} {x y z : View}

theorem refl (i : Nat) (x : View) : Effect i x x where
  current := rfl
  closing := id
  quiet := fun _ => Quiet.refl _
  counted := id
  passed := id
  ready := Or.inl
  sound := fun _ => id

theorem published (h : Effect i x y) (hx : Published i x) : Published i y := by
  intro hready hcurr
  rcases h.ready hready with hold | hnew
  · exact h.passed (hx hold (h.current ▸ hcurr))
  · exact hnew.2

theorem trans (h : Effect i x y) (h' : Effect i y z) : Effect i x z where
  current := h'.current.trans h.current
  closing := fun hc => h'.closing (h.closing hc)
  quiet := fun hdown =>
    (h.quiet hdown).trans (h'.quiet (hdown.imp h.closing fun hne => h.current ▸ hne))
  counted := fun hc => h'.counted (h.counted hc)
  passed := fun hp => h'.passed (h.passed hp)
  ready := fun hready => by
    rcases h'.ready hready with hold | ⟨hcurr, hpass⟩
    · exact (h.ready hold).imp_right fun hnew => ⟨hnew.1, h'.passed hnew.2⟩
    · exact .inr ⟨h.current ▸ hcurr, hpass⟩
  sound := fun hpub hs => h'.sound (h.published hpub) (h.sound hpub hs)

theorem of_same {app : App} {rt rt' : Runtime} (hclose : rt.closing = true → rt'.closing = true)
    (hverify : rt'.verifications = rt.verifications) (hadm : rt'.admitted = rt.admitted)
    (hdrained : rt'.drained = rt.drained)
    (hpass : rt.init.passed = true → rt'.init.passed = true) (hsound : rt.Sound → rt'.Sound) :
    Effect i (app, rt) (app, rt') where
  current := rfl
  closing := hclose
  quiet := fun _ => Quiet.of_eq hverify
  counted := fun hc => by
    simp only [Runtime.Counted] at hc ⊢
    rw [hverify, hadm, hdrained]
    exact hc
  passed := hpass
  ready := Or.inl
  sound := fun _ => hsound

end Effect

section Readiness

variable (i : Nat) (x : View)

theorem setIdentityState_snd (new : IdentityState) (owned : Bool) :
    (setIdentityState i new owned x).2 = x.2 := by
  unfold setIdentityState
  split
  · rfl
  · rfl

theorem setIdentityState_current (new : IdentityState) (owned : Bool) :
    (setIdentityState i new owned x).1.current = x.1.current := by
  unfold setIdentityState
  split
  · rfl
  · rfl

theorem ready_of_setIdentityState {new : IdentityState} {owned : Bool}
    (h : (setIdentityState i new owned x).1.identityState = .ready) :
    x.1.identityState = .ready ∨ (x.1.current = i ∧ new = .ready) := by
  unfold setIdentityState at h
  split at h
  · rename_i hcurr
    refine .inr ⟨hcurr.1, ?_⟩
    dsimp only at h
    split at h
    · cases h
    · exact h
  · exact .inl h

theorem effect_setIdentityState {new : IdentityState} (owned : Bool)
    (hready : new = .ready → x.2.init.passed = true) :
    Effect i x (setIdentityState i new owned x) where
  current := setIdentityState_current ..
  closing := by rw [setIdentityState_snd]; exact id
  quiet := fun _ => by rw [setIdentityState_snd]; exact Quiet.refl _
  counted := by rw [setIdentityState_snd]; exact id
  passed := by rw [setIdentityState_snd]; exact id
  ready := fun h => by
    rw [setIdentityState_snd]
    exact (ready_of_setIdentityState i x h).imp_right fun hnew => ⟨hnew.1, hready hnew.2⟩
  sound := fun _ => by rw [setIdentityState_snd]; exact id

theorem effect_unavailable (owned : Bool) : Effect i x (setIdentityState i .unavailable owned x) :=
  effect_setIdentityState i x owned nofun

theorem effect_close : Effect i x (close i x) := by
  obtain ⟨app, rt⟩ := x
  unfold close
  refine Effect.trans (y := (if app.current = i ∧ app.configToken = rt.token
    then { app with closing := true } else app, { rt with closing := true })) ?_
    (effect_unavailable _ _ _)
  refine ⟨?_, fun _ => rfl, fun _ => Quiet.of_eq rfl, id, id, ?_, fun _ hs => ?_⟩
  · dsimp only
    split
    · rfl
    · rfl
  · intro hready
    refine .inl ?_
    dsimp only at hready
    split at hready
    · exact hready
    · exact hready
  · exact ⟨hs.probes, fun _ => rfl, hs.settled, hs.idle, hs.byInit, hs.byCleanup⟩

theorem effect_observerNotices : Effect i x (observerNotices i x) := by
  unfold observerNotices
  split
  · exact effect_close i x
  · exact Effect.refl i x

theorem effect_publishFailure : Effect i x (publishFailure i x) := by
  unfold publishFailure
  split
  · exact effect_unavailable i x false
  · exact Effect.refl i x

theorem effect_refresh : Effect i x (refresh i x) :=
  (effect_observerNotices i x).trans (effect_publishFailure i _)

theorem open_of_isReady {i : Nat} {x : View} (h : isReady i x = true) : Open i x := by
  simp only [isReady, Bool.and_eq_true, decide_eq_true_eq, Bool.not_eq_true'] at h
  obtain ⟨⟨⟨⟨⟨⟨hcurr, -⟩, -⟩, hready⟩, -⟩, hclose⟩, -⟩ := h
  exact ⟨hcurr, hclose, hready⟩

end Readiness

/-! ## Verifications -/

theorem Lifespan.ended_of_afterProbes {l : Lifespan} (h : l.afterProbes = true) :
    l.ended = true := by
  cases l <;> first | rfl | cases h

section Verifications

variable {i j : Nat} {app : App} {rt : Runtime} {v v' : Verification} {x : View}

theorem Open.not_down (h : Open i x) : ¬ (x.2.closing = true ∨ x.1.current ≠ i) := by
  rintro (hclose | hcurr)
  · rw [h.closing] at hclose
    cases hclose
  · exact hcurr h.current

theorem Open.not_afterProbes (h : Open i x) (hs : x.2.Sound) :
    x.2.lifespan.afterProbes = false := by
  cases hafter : x.2.lifespan.afterProbes with
  | false => rfl
  | true =>
    have hclose := hs.closing (Lifespan.ended_of_afterProbes hafter)
    rw [h.closing] at hclose
    cases hclose

variable {rt' : Runtime}

theorem Runtime.Sound.of_verifications (h : rt.Sound) (hinit : rt'.init = rt.init)
    (hclose : rt'.closing = rt.closing) (hlock : rt'.lock = rt.lock)
    (hlifespan : rt'.lifespan = rt.lifespan)
    (hmem : ∀ w ∈ rt'.verifications, w ∈ rt.verifications ∨ w = v)
    (hprobe : v.hasProbe = true → rt.init.passed = true)
    (hidle : rt.lifespan.afterProbes = true → v.unsettled = false) : rt'.Sound where
  probes := fun w hw hp => by
    rw [hinit]
    rcases hmem w hw with hold | rfl
    · exact h.probes w hold hp
    · exact hprobe hp
  closing := by rw [hlifespan, hclose]; exact h.closing
  settled := by rw [hlifespan, hinit]; exact h.settled
  idle := fun hafter w hw => by
    rw [hlifespan] at hafter
    rcases hmem w hw with hold | rfl
    · exact h.idle hafter w hold
    · exact hidle hafter
  byInit := by rw [hlock, hinit]; exact h.byInit
  byCleanup := by rw [hlock, hlifespan]; exact h.byCleanup

theorem effect_slots (n : Nat) : Effect i (app, rt) (app, { rt with slots := n }) :=
  Effect.of_same id rfl rfl rfl id fun h =>
    ⟨h.probes, h.closing, h.settled, h.idle, h.byInit, h.byCleanup⟩

theorem quiet_append (happ : rt'.verifications = rt.verifications ++ [v])
    (htrue : v.answeredTrue = false) (hprobe : v.hasProbe = false) : Quiet rt rt' := by
  intro k w hw hsome
  rw [happ, List.getElem?_append] at hw
  split at hw
  · exact ⟨w, hw, id, id⟩
  · obtain rfl := List.mem_singleton.1 (List.mem_of_getElem? hw)
    rcases hsome with ht | hp
    · rw [htrue] at ht
      cases ht
    · rw [hprobe] at hp
      cases hp

theorem mem_append_or {vs : List Verification} {w : Verification} (h : w ∈ vs ++ [v]) :
    w ∈ vs ∨ w = v :=
  (List.mem_append.1 h).imp_right List.mem_singleton.1

theorem quiet_set (hv : rt.verifications[j]? = some v)
    (hset : rt'.verifications = rt.verifications.set j v')
    (htrue : v'.answeredTrue = true → v.answeredTrue = true)
    (hprobe : v'.hasProbe = true → v.hasProbe = true) : Quiet rt rt' := by
  intro k w hw _
  rw [hset, List.getElem?_set] at hw
  split at hw
  · rename_i hjk
    subst hjk
    split at hw
    · cases hw
      exact ⟨v, hv, htrue, hprobe⟩
    · cases hw
  · exact ⟨w, hw, id, id⟩

theorem effect_put (hv : rt.verifications[j]? = some v) (hadmits : v'.admits = v.admits)
    (htrue : v'.answeredTrue = true → v.answeredTrue = true ∨ Open i (app, rt))
    (hprobe : v'.hasProbe = true → v.hasProbe = true ∨ Open i (app, rt))
    (hunsettled : v'.unsettled = true → v.unsettled = true ∨ Open i (app, rt)) :
    Effect i (app, rt) (app, rt.put j v') where
  current := rfl
  closing := id
  quiet := fun hdown =>
    quiet_set hv rfl (fun ht => (htrue ht).resolve_right fun ho => ho.not_down hdown)
      fun hp => (hprobe hp).resolve_right fun ho => ho.not_down hdown
  counted := fun (hc : rt.Counted) => by
    obtain ⟨hj, hget⟩ := List.getElem?_eq_some_iff.1 hv
    refine ⟨hc.1.trans ?_, hc.2⟩
    rw [Runtime.put, List.countP_set hj, hget, hadmits]
    have hpos : v.admits = true → 0 < rt.verifications.countP Verification.admits := fun ha =>
      List.countP_pos_iff.2 ⟨v, List.mem_of_getElem? hv, ha⟩
    split
    · rename_i ha
      have hle := hpos ha
      omega
    · rfl
  passed := id
  ready := Or.inl
  sound := fun hpub hs => by
    have hmem := List.mem_of_getElem? hv
    refine hs.of_verifications rfl rfl rfl rfl (fun _ => List.mem_or_eq_of_mem_set) (fun hp => ?_)
      fun hafter => ?_
    · rcases hprobe hp with hold | hopen
      · exact hs.probes v hmem hold
      · exact hpub hopen.ready hopen.current
    · by_contra hne
      rcases hunsettled (Bool.not_eq_false _ ▸ hne) with hold | hopen
      · rw [hs.idle hafter v hmem] at hold
        cases hold
      · rw [hopen.not_afterProbes hs] at hafter
        cases hafter

variable {reply : Reply}

theorem effect_push (htrue : (Verification.ended reply).answeredTrue = true → Open i (app, rt)) :
    Effect i (app, rt)
      (app, { rt with verifications := rt.verifications ++ [.ended reply] }) where
  current := rfl
  closing := id
  quiet := fun hdown =>
    quiet_append rfl (Bool.eq_false_iff.2 fun ht => (htrue ht).not_down hdown) rfl
  counted := fun hc => by
    refine ⟨hc.1.trans ?_, hc.2⟩
    rw [List.countP_append]
    rfl
  passed := id
  ready := Or.inl
  sound := fun _ hs => hs.of_verifications rfl rfl rfl rfl (fun _ => mem_append_or) nofun
    fun _ => rfl

theorem effect_enter : Effect i (app, rt) (app, rt.enter) where
  current := rfl
  closing := id
  quiet := fun _ => quiet_append rfl rfl rfl
  counted := fun hc => by
    refine ⟨?_, ?_⟩
    · rw [Runtime.enter, List.countP_append, ← hc.1]
      rfl
    · simp [Runtime.enter]
  passed := id
  ready := Or.inl
  sound := fun _ hs => hs.of_verifications rfl rfl rfl rfl (fun _ => mem_append_or) nofun
    fun _ => rfl

theorem effect_finish (hv : rt.verifications[j]? = some v) (hadmits : v.admits = true)
    (hadmits' : v'.admits = false) (hunsettled : v'.unsettled = false)
    (htrue : v'.answeredTrue = true → v.answeredTrue = true)
    (hprobe : v'.hasProbe = true → v.hasProbe = true) :
    Effect i (app, rt) (app, (rt.put j v').admissionFinished) where
  current := rfl
  closing := id
  quiet := fun _ => quiet_set hv rfl htrue hprobe
  counted := fun (hc : rt.Counted) => by
    obtain ⟨hj, hget⟩ := List.getElem?_eq_some_iff.1 hv
    have hpos : 0 < rt.verifications.countP Verification.admits :=
      List.countP_pos_iff.2 ⟨v, List.mem_of_getElem? hv, hadmits⟩
    obtain ⟨hcount, hdrained⟩ := hc
    have hbusy : rt.drained = false := by
      cases hd : rt.drained with
      | false => rfl
      | true =>
        have hzero := hdrained.1 hd
        omega
    refine ⟨?_, ?_⟩
    · simp only [Runtime.admissionFinished, Runtime.put]
      rw [List.countP_set hj, hget, hadmits, hadmits', hcount]
      simp
    · simp [Runtime.admissionFinished, Runtime.put, hbusy]
  passed := id
  ready := Or.inl
  sound := fun _ hs =>
    hs.of_verifications rfl rfl rfl rfl (fun _ => List.mem_or_eq_of_mem_set)
      (fun hp => hs.probes v (List.mem_of_getElem? hv) (hprobe hp)) fun _ => hunsettled

theorem eq_returned_of_ended (h : (Verification.ended reply).answeredTrue = true) :
    reply = .returned true := by
  cases reply with
  | pending => cases h
  | raised => cases h
  | returned answer =>
    cases answer with
    | true => rfl
    | false => cases h

theorem effect_leave (hv : rt.verifications[j]? = some .waiting)
    (hreply : reply ≠ .returned true) : Effect i (app, rt) (app, rt.leave j reply) := by
  exact effect_finish hv rfl rfl rfl (fun ht => absurd (eq_returned_of_ended ht) hreply) nofun

theorem close_snd (i : Nat) (x : View) : (close i x).2 = { x.2 with closing := true } :=
  setIdentityState_snd ..

theorem publishFailure_snd (i : Nat) (x : View) : (publishFailure i x).2 = x.2 := by
  unfold publishFailure
  split
  · exact setIdentityState_snd ..
  · rfl

theorem refresh_verifications (i : Nat) (x : View) :
    (refresh i x).2.verifications = x.2.verifications := by
  rw [refresh, publishFailure_snd]
  split
  · rw [close_snd]
  · rfl

theorem answeredTrue_submitted (reply : Reply) (probe : Probe) :
    (Verification.submitted reply probe).answeredTrue
      = (Verification.ended reply).answeredTrue := by
  cases reply with
  | pending => rfl
  | raised => rfl
  | returned answer => cases answer <;> rfl

theorem effect_proceed (hv : x.2.verifications[j]? = some .waiting) (late : Bool)
    (dispatch : Dispatch) (isException : Bool) :
    Effect i x (proceed i j late dispatch isException x) := by
  refine (effect_refresh i x).trans ?_
  rw [← refresh_verifications i x] at hv
  unfold proceed
  generalize refresh i x = y at hv ⊢
  obtain ⟨app, rt⟩ := y
  dsimp only at hv ⊢
  split
  · rename_i hready
    have hopen : Open i (app, rt) := open_of_isReady (Bool.and_eq_true _ _ ▸ hready).1
    have hopen' : Open i (app, { rt with slots := rt.slots - 1 }) :=
      ⟨hopen.current, hopen.closing, hopen.ready⟩
    refine (effect_slots (rt.slots - 1)).trans ?_
    have hput : ∀ reply probe, (Verification.submitted reply probe).admits = true →
        Effect i (app, { rt with slots := rt.slots - 1 })
          (app, Runtime.put j (.submitted reply probe) { rt with slots := rt.slots - 1 }) :=
      fun reply probe hadmits => effect_put (v := .waiting) hv hadmits (fun _ => Or.inr hopen')
        (fun _ => Or.inr hopen') fun _ => Or.inr hopen'
    cases dispatch with
    | accepted => exact hput _ _ rfl
    | aborted => exact (hput _ _ rfl).trans (effect_close i _)
    | claimed => exact (hput _ _ rfl).trans (effect_close i _)
  · exact effect_leave hv nofun

theorem effect_verify (x : View) (behind late : Bool) (dispatch : Dispatch) (isException : Bool) :
    Effect i x (verify i behind late dispatch isException x) := by
  refine (effect_refresh i x).trans ?_
  unfold verify
  obtain ⟨app, rt⟩ := refresh i x
  dsimp only
  split
  · rename_i hready
    split
    · exact effect_push fun _ => open_of_isReady hready
    · split
      · exact effect_push nofun
      · split
        · refine effect_enter.trans (effect_proceed ?_ _ _ _)
          simp [Runtime.enter]
        · exact effect_enter
  · exact effect_push nofun

theorem effect_grant (x : View) (j : Nat) (late : Bool) (dispatch : Dispatch) (isException : Bool) :
    Effect i x (grant i j late dispatch isException x) := by
  unfold grant
  split
  · rename_i hv
    exact effect_proceed hv.1 late dispatch isException
  · exact Effect.refl i x

theorem effect_giveUp (x : View) (j : Nat) (cancelled : Bool) :
    Effect i x (giveUp j cancelled x) := by
  unfold giveUp
  split
  · rename_i hv
    refine effect_leave hv ?_
    cases cancelled <;> nofun
  · exact Effect.refl i x

theorem effect_reply {probe : Probe} (hv : x.2.verifications[j]? = some (.submitted .pending probe))
    (htrue : reply = .returned true → Open i x) :
    Effect i x (x.1, x.2.put j (.submitted reply probe)) := by
  refine effect_put hv rfl (fun ht => Or.inr (htrue ?_)) (fun _ => Or.inl rfl) Or.inl
  rw [answeredTrue_submitted] at ht
  exact eq_returned_of_ended ht

theorem effect_resume (x : View) (j : Nat) (r : Resume) : Effect i x (resume i j r x) := by
  unfold resume
  split
  · rename_i probe hv
    have hheal : Effect i x ((refresh i x).1, (refresh i x).2.put j
        (.submitted (.returned (isReady i (refresh i x))) probe)) := by
      rw [← refresh_verifications i x] at hv
      exact (effect_refresh i x).trans
        (effect_reply hv fun hr => open_of_isReady (Reply.returned.inj hr))
    split
    · exact effect_reply hv nofun
    · exact effect_reply hv nofun
    · split
      · exact effect_reply hv nofun
      · exact hheal
    · split
      · exact effect_reply hv nofun
      · exact hheal
    · refine effect_reply hv ?_
      split <;> nofun
    · refine effect_reply hv ?_
      split <;> nofun
    · exact effect_reply hv nofun
    · exact effect_reply hv nofun
    · exact Effect.refl i x
  · exact Effect.refl i x

theorem effect_probeThread (x : View) (j : Nat) (o : Outcome) : Effect i x (probeThread j o x) := by
  unfold probeThread
  split
  · rename_i reply hv
    refine effect_put hv rfl (fun ht => Or.inl ?_) (fun _ => Or.inl rfl) fun _ => Or.inl rfl
    rw [answeredTrue_submitted] at ht ⊢
    exact ht
  · rename_i reply hv
    refine effect_put hv rfl (fun ht => Or.inl ?_) (fun _ => Or.inl rfl) fun _ => Or.inl rfl
    rw [answeredTrue_submitted] at ht ⊢
    exact ht
  · exact Effect.refl i x

theorem effect_settleProbe (x : View) (j : Nat) : Effect i x (settleProbe i j x) := by
  unfold settleProbe
  split
  · rename_i reply o hv
    have hstep : Effect i x (if o = .unhealthy ∨ o = .raised
        then setIdentityState i .unavailable false x else x)
        ∧ (if o = .unhealthy ∨ o = .raised
          then setIdentityState i .unavailable false x else x).2 = x.2 := by
      split
      · exact ⟨effect_unavailable i x false, setIdentityState_snd ..⟩
      · exact ⟨Effect.refl i x, rfl⟩
    refine hstep.1.trans ?_
    rw [← hstep.2] at hv
    generalize (if o = .unhealthy ∨ o = .raised
      then setIdentityState i .unavailable false x else x) = y at hv ⊢
    obtain ⟨app, rt⟩ := y
    refine (effect_slots (rt.slots + 1)).trans ?_
    refine effect_finish (v := .submitted reply (.finished o)) hv rfl rfl rfl (fun ht => ?_)
      fun _ => rfl
    rw [answeredTrue_submitted] at ht ⊢
    exact ht
  · exact Effect.refl i x

end Verifications

/-! ## Initialization -/

section Init

variable {i : Nat} {app : App} {rt : Runtime}

theorem effect_init {a : Init} {lock : Lock} {owned : Bool}
    (hpass : rt.init.passed = true → a.passed = true)
    (hsettle : rt.init.isSettled = true → a.isSettled = true)
    (hbyIn : lock = .releasedByInit →
      (rt.lock = .releasedByInit ∧ (rt.init.failed = true → a.failed = true)) ∨ a.failed = true)
    (hbyCl : lock = .releasedByCleanup → rt.lock = .releasedByCleanup) :
    Effect i (app, rt) (app, { rt with init := a, lock := lock, owned := owned }) := by
  refine Effect.of_same id rfl rfl rfl hpass fun hs => ?_
  refine ⟨fun v hv hp => hpass (hs.probes v hv hp), hs.closing,
    fun hafter => hsettle (hs.settled hafter), hs.idle, fun hlock => ?_,
    fun hlock => hs.byCleanup (hbyCl hlock)⟩
  rcases hbyIn hlock with ⟨hold, hfail⟩ | hnew
  · exact hfail (hs.byInit hold)
  · exact hnew

theorem effect_goto {a : Init} (hpass : rt.init.passed = true → a.passed = true)
    (hsettle : rt.init.isSettled = true → a.isSettled = true)
    (hfail : rt.init.failed = true → a.failed = true) :
    Effect i (app, rt) (app, { rt with init := a }) :=
  effect_init hpass hsettle (fun hlock => Or.inl ⟨hlock, hfail⟩) id

theorem effect_early {a₀ a : Init} (hinit : rt.init = a₀)
    (hearly : a₀.passed = false ∧ a₀.isSettled = false ∧ a₀.failed = false) {lock : Lock}
    {owned : Bool} (hbyIn : lock = .releasedByInit → rt.lock = .releasedByInit ∨ a.failed = true)
    (hbyCl : lock = .releasedByCleanup → rt.lock = .releasedByCleanup) :
    Effect i (app, rt) (app, { rt with init := a, lock := lock, owned := owned }) := by
  refine effect_init ?_ ?_ (fun hlock => (hbyIn hlock).imp_left fun hold => ⟨hold, ?_⟩) hbyCl
  · rw [hinit, hearly.1]
    nofun
  · rw [hinit, hearly.2.1]
    nofun
  · rw [hinit, hearly.2.2]
    nofun

theorem effect_initThread (x : View) (c : InitChoice) : Effect i x (initThread i c x) := by
  obtain ⟨app, rt⟩ := x
  unfold initThread
  dsimp only
  split
  · rename_i hinit
    exact effect_early hinit ⟨rfl, rfl, rfl⟩ Or.inl id
  · rename_i hinit
    exact (effect_early hinit ⟨rfl, rfl, rfl⟩ Or.inl id).trans (effect_unavailable i _ false)
  · rename_i hinit
    exact effect_early hinit ⟨rfl, rfl, rfl⟩ Or.inl id
  · rename_i hinit
    exact effect_early hinit ⟨rfl, rfl, rfl⟩ Or.inl id
  · rename_i hinit
    exact effect_early hinit ⟨rfl, rfl, rfl⟩ Or.inl id
  · rename_i hinit
    exact effect_early hinit ⟨rfl, rfl, rfl⟩ Or.inl id
  · rename_i locked hinit _
    refine effect_early hinit ⟨rfl, rfl, rfl⟩ (fun hlock => Or.inl ?_) fun hlock => ?_
    · cases locked with
      | true => cases hlock
      | false => exact hlock
    · cases locked with
      | true => cases hlock
      | false => exact hlock
  · rename_i hinit
    exact effect_early hinit ⟨rfl, rfl, rfl⟩ Or.inl id
  · rename_i hinit _
    exact effect_early hinit ⟨rfl, rfl, rfl⟩ Or.inl id
  · rename_i hinit
    exact effect_early hinit ⟨rfl, rfl, rfl⟩ Or.inl id
  · -- the failing initialization releases the lock
    rename_i hinit _
    refine effect_early hinit ⟨rfl, rfl, rfl⟩ (fun _ => Or.inr rfl) fun hlock => ?_
    split at hlock
    · cases hlock
    · exact hlock
  · rename_i hinit
    refine (effect_goto ?_ ?_ fun _ => rfl).trans (effect_unavailable i _ false)
    · rw [hinit]
      nofun
    · rw [hinit]
      nofun
  · rename_i hinit
    refine effect_goto ?_ ?_ fun _ => rfl
    · rw [hinit]
      nofun
    · rw [hinit]
      nofun
  · rename_i hinit
    exact (effect_early hinit ⟨rfl, rfl, rfl⟩ Or.inl id).trans
      (effect_setIdentityState i _ _ fun _ => rfl)
  · rename_i hinit
    refine effect_goto (fun _ => rfl) ?_ ?_
    · rw [hinit]
      nofun
    · rw [hinit]
      nofun
  · exact Effect.refl i _

theorem effect_settleInit (x : View) : Effect i x (settleInit i x) := by
  obtain ⟨app, rt⟩ := x
  unfold settleInit
  split
  · rename_i r hinit
    dsimp only at hinit ⊢
    have hgoto : Effect i (app, rt) (app, { rt with init := .settled r }) := by
      refine effect_goto ?_ ?_ ?_
      · rw [hinit]
        cases r <;> exact id
      · rw [hinit]
        nofun
      · rw [hinit]
        cases r <;> exact id
    split
    · exact hgoto.trans (effect_unavailable i _ false)
    · exact hgoto
  · exact Effect.refl i _

end Init

/-! ## The shutdown -/

section Shutdown

variable {i : Nat} {app : App} {rt : Runtime}

theorem effect_lifespan {l : Lifespan} {lock : Lock} {owned active : Bool}
    (hclose : rt.Sound → l.ended = true → rt.closing = true)
    (hsettle : rt.Sound → l.afterInit = true → rt.init.isSettled = true)
    (hidle : rt.Sound → l.afterProbes = true → ∀ v ∈ rt.verifications, v.unsettled = false)
    (hbyIn : lock = .releasedByInit → rt.lock = .releasedByInit)
    (hbyCl : rt.Sound → lock = .releasedByCleanup → l.afterProbes = true) :
    Effect i (app, rt) ({ app with lifespanActive := active },
      { rt with lifespan := l, lock := lock, owned := owned }) where
  current := rfl
  closing := id
  quiet := fun _ => Quiet.of_eq rfl
  counted := id
  passed := id
  ready := Or.inl
  sound := fun _ hs => ⟨hs.probes, hclose hs, hsettle hs, hidle hs,
    fun hlock => hs.byInit (hbyIn hlock), hbyCl hs⟩

theorem effect_late {l l' : Lifespan} (hl : rt.lifespan = l) (hafter : l.afterProbes = true)
    (hafter' : l'.afterProbes = true) {lock : Lock} {owned active : Bool}
    (hbyIn : lock = .releasedByInit → rt.lock = .releasedByInit) :
    Effect i (app, rt) ({ app with lifespanActive := active },
      { rt with lifespan := l', lock := lock, owned := owned }) := by
  subst hl
  refine effect_lifespan (fun hs _ => hs.closing (Lifespan.ended_of_afterProbes hafter))
    (fun hs _ => hs.settled ?_) (fun hs _ => hs.idle hafter) hbyIn fun _ _ => hafter'
  revert hafter
  cases rt.lifespan <;> intro hafter <;> first | rfl | cases hafter

theorem close_lifespan (l : Lifespan) : close i (app, { rt with lifespan := l })
    = ((close i (app, rt)).1, { (close i (app, rt)).2 with lifespan := l }) := by
  unfold close setIdentityState
  dsimp only
  split
  · rfl
  · rfl

theorem effect_waiting {l l' : Lifespan} (hl : rt.lifespan = l) (hafter : l.afterProbes = false)
    (hclose : rt.Sound → rt.closing = true)
    (hsettle : rt.Sound → l'.afterInit = true → rt.init.isSettled = true)
    (hidle : rt.Sound → l'.afterProbes = true → ∀ v ∈ rt.verifications, v.unsettled = false) :
    Effect i (app, rt) (app, { rt with lifespan := l' }) := by
  refine effect_lifespan (fun hs _ => hclose hs) hsettle hidle id fun hs hlock => ?_
  have hold := hs.byCleanup hlock
  rw [hl, hafter] at hold
  cases hold

theorem effect_lifespanStep (x : View) (c : LifespanChoice) : Effect i x (lifespanStep i c x) := by
  obtain ⟨app, rt⟩ := x
  unfold lifespanStep
  dsimp only
  split
  · rename_i hl
    rw [close_lifespan]
    refine (effect_close i (app, rt)).trans ?_
    have hclosed : (close i (app, rt)).2.closing = true
        ∧ (close i (app, rt)).2.lifespan = .opened := by
      rw [close_snd]
      exact ⟨rfl, hl⟩
    generalize close i (app, rt) = y at hclosed ⊢
    obtain ⟨app', rt'⟩ := y
    exact effect_waiting hclosed.2 rfl (fun _ => hclosed.1) nofun nofun
  · rename_i hl
    split
    · rename_i r hinit
      refine effect_waiting hl rfl (fun hs => hs.closing (by rw [hl]; rfl)) (fun _ _ => ?_) nofun
      rw [hinit]
      rfl
    · exact Effect.refl i _
  · rename_i hl
    split
    · exact Effect.refl i _
    · rename_i hnone
      refine effect_waiting hl rfl (fun hs => hs.closing (by rw [hl]; rfl))
        (fun hs _ => hs.settled (by rw [hl]; rfl)) fun _ _ v hv => ?_
      rw [List.any_eq_true, not_exists] at hnone
      exact Bool.eq_false_iff.2 fun hu => hnone v ⟨hv, hu⟩
  · rename_i hl
    split
    · split
      · exact effect_late hl rfl rfl id
      · split
        · exact effect_late hl rfl rfl id
        · exact effect_late hl rfl rfl id
    · exact Effect.refl i _
  · rename_i hl
    exact effect_late hl rfl rfl id
  · rename_i hl
    exact effect_late hl rfl rfl id
  · rename_i hl
    exact (effect_late hl rfl rfl id).trans (effect_close i _)
  · -- the cleanup releases the lock
    rename_i hl
    refine (effect_late hl rfl rfl fun hlock => ?_).trans (effect_close i _)
    split at hlock
    · cases hlock
    · exact hlock
  · rename_i hl
    exact effect_late hl rfl rfl id
  · exact Effect.refl i _

theorem effect_cancelObserver (x : View) : Effect i x (cancelObserver x) := by
  obtain ⟨app, rt⟩ := x
  exact Effect.of_same id rfl rfl rfl id fun hs =>
    ⟨hs.probes, hs.closing, hs.settled, hs.idle, hs.byInit, hs.byCleanup⟩

end Shutdown

theorem effect_act (i : Nat) (e : Event) (x : View) : Effect i x (e.act i x) := by
  cases e with
  | verify behind late dispatch isException =>
    exact effect_verify x behind late dispatch isException
  | grant j late dispatch isException => exact effect_grant x j late dispatch isException
  | giveUp j cancelled => exact effect_giveUp x j cancelled
  | resume j r => exact effect_resume x j r
  | probeThread j o => exact effect_probeThread x j o
  | settleProbe j => exact effect_settleProbe x j
  | initThread c => exact effect_initThread x c
  | settleInit => exact effect_settleInit x
  | lifespan c => exact effect_lifespanStep x c
  | cancelObserver => exact effect_cancelObserver x
  | observerNotices => exact effect_observerNotices i x

/-! ## Runs -/

structure State.Inv (s : State) : Prop where
  counted : ∀ (i : Nat) rt, s.runtimes[i]? = some rt → rt.Counted
  sound : ∀ (i : Nat) rt, s.runtimes[i]? = some rt → rt.Sound
  published : ∀ (i : Nat) rt, s.runtimes[i]? = some rt → Published i (s.app, rt)

def Runtime.Kept (app : App) (i : Nat) (rt : Runtime) : Prop :=
  rt.Counted ∧ rt.Sound ∧ Published i (app, rt)

variable {s : State}

theorem State.Inv.of_kept
    (h : ∀ (i : Nat) rt, s.runtimes[i]? = some rt → rt.Kept s.app i) : s.Inv :=
  ⟨fun i rt hrt => (h i rt hrt).1, fun i rt hrt => (h i rt hrt).2.1,
    fun i rt hrt => (h i rt hrt).2.2⟩

variable {rt : Runtime} {i : Nat}

theorem Runtime.Kept.of_not_ready {app : App}
    (hready : app.identityState ≠ .ready) (hcount : rt.Counted) (hsound : rt.Sound) :
    rt.Kept app i :=
  ⟨hcount, hsound, fun h => absurd h hready⟩

theorem counted_fresh (token : Nat) : (Runtime.fresh token).Counted :=
  ⟨rfl, fun _ => rfl, fun _ => rfl⟩

theorem sound_fresh (token : Nat) : (Runtime.fresh token).Sound :=
  ⟨nofun, nofun, nofun, nofun, nofun, nofun⟩

theorem counted_dispatched (token : Nat) (dispatch : Dispatch) :
    (dispatched token dispatch).Counted := by
  cases dispatch <;> exact ⟨rfl, fun _ => rfl, fun _ => rfl⟩

theorem Runtime.Sound.close {rt : Runtime} (h : rt.Sound) : { rt with closing := true }.Sound :=
  ⟨h.probes, fun _ => rfl, h.settled, h.idle, h.byInit, h.byCleanup⟩

theorem sound_dispatched (token : Nat) (dispatch : Dispatch) :
    (dispatched token dispatch).Sound := by
  cases dispatch with
  | accepted => exact ⟨nofun, nofun, nofun, nofun, nofun, nofun⟩
  | aborted => exact ⟨nofun, fun _ => rfl, nofun, nofun, nofun, nofun⟩
  | claimed => exact ⟨nofun, fun _ => rfl, nofun, nofun, nofun, nofun⟩

theorem getElem_begin {dispatch : Dispatch} (hact : s.app.lifespanActive = false)
    {rt' : Runtime} (h : (begin dispatch s).runtimes[i]? = some rt') :
    (∃ rt, s.runtimes[i]? = some rt ∧ (rt' = rt ∨ rt' = { rt with closing := true }))
      ∨ rt' = dispatched s.app.configToken dispatch := by
  simp only [begin, hact, Bool.false_eq_true, if_false] at h
  rw [List.getElem?_append] at h
  split at h
  · left
    rw [List.getElem?_modify] at h
    obtain ⟨rt, hrt, rfl⟩ := Option.map_eq_some_iff.1 h
    refine ⟨rt, hrt, ?_⟩
    split
    · exact .inr rfl
    · exact .inl rfl
  · right
    exact List.mem_singleton.1 (List.mem_of_getElem? h)

theorem inv_begin (dispatch : Dispatch) (h : s.Inv) : (begin dispatch s).Inv := by
  cases hact : s.app.lifespanActive with
  | true =>
    rw [begin, hact, if_pos rfl]
    exact h
  | false =>
    refine State.Inv.of_kept fun i rt' hrt' => Runtime.Kept.of_not_ready ?_ ?_ ?_
    · simp only [begin, hact, Bool.false_eq_true, if_false]
      split <;> nofun
    · rcases getElem_begin hact hrt' with ⟨rt, hrt, rfl | rfl⟩ | rfl
      · exact h.counted i rt' hrt
      · exact h.counted i rt hrt
      · exact counted_dispatched _ _
    · rcases getElem_begin hact hrt' with ⟨rt, hrt, rfl | rfl⟩ | rfl
      · exact h.sound i rt' hrt
      · exact (h.sound i rt hrt).close
      · exact sound_dispatched _ _

theorem inv_configure (h : s.Inv) : (configure s).Inv := by
  refine State.Inv.of_kept fun i rt hrt => ?_
  rw [configure, List.getElem?_append] at hrt
  split at hrt
  · exact .of_not_ready nofun (h.counted i rt hrt) (h.sound i rt hrt)
  · rw [List.mem_singleton.1 (List.mem_of_getElem? hrt)]
    exact .of_not_ready nofun (counted_fresh _) (sound_fresh _)

theorem inv_on (i : Nat) (e : Event) (h : s.Inv) : (step s (.on i e)).Inv := by
  simp only [step]
  split
  · exact h
  · rename_i rt hrt
    have heff := effect_act i e (s.app, rt)
    refine State.Inv.of_kept fun k rt' hk => ?_
    dsimp only at hk ⊢
    rw [List.getElem?_set] at hk
    split at hk
    · rename_i hik
      subst hik
      split at hk
      · cases hk
        exact ⟨heff.counted (h.counted i rt hrt),
          heff.sound (h.published i rt hrt) (h.sound i rt hrt),
          heff.published (h.published i rt hrt)⟩
      · cases hk
    · rename_i hik
      refine ⟨h.counted k rt' hk, h.sound k rt' hk, fun hready hcurr => ?_⟩
      have hcurr' : s.app.current = k := heff.current.symm.trans hcurr
      rcases heff.ready hready with hbefore | ⟨hi, -⟩
      · exact h.published k rt' hk hbefore hcurr'
      · exact absurd (hi.symm.trans hcurr') hik

theorem inv_step (s : State) (a : Action) (h : s.Inv) : (step s a).Inv := by
  cases a with
  | on i e => exact inv_on i e h
  | begin dispatch => exact inv_begin dispatch h
  | configure => exact inv_configure h
  | latch token failed => exact ⟨h.counted, h.sound, h.published⟩

theorem inv_start : start.Inv := by
  refine State.Inv.of_kept fun i rt hrt => ?_
  rw [List.mem_singleton.1 (List.mem_of_getElem? hrt)]
  exact .of_not_ready nofun (counted_fresh 0) (sound_fresh 0)

theorem inv_run (h : s.Inv) (actions : List Action) : (run step s actions).Inv := by
  induction actions generalizing s with
  | nil => exact h
  | cons a actions ih => exact ih (inv_step s a h)

/-! ## Closed and replaced runtimes -/

def Down (s : State) (i : Nat) (rt : Runtime) : Prop := rt.closing = true ∨ s.app.current ≠ i

theorem down_step (hrt : s.runtimes[i]? = some rt) (hdown : Down s i rt) (a : Action) :
    ∃ rt', (step s a).runtimes[i]? = some rt' ∧ Down (step s a) i rt' ∧ Quiet rt rt' := by
  have hlt : i < s.runtimes.length := (List.getElem?_eq_some_iff.1 hrt).1
  cases a with
  | on k e =>
    simp only [step]
    split
    · exact ⟨rt, hrt, hdown, Quiet.refl rt⟩
    · rename_i rtk hrtk
      have heff := effect_act k e (s.app, rtk)
      by_cases hk : k = i
      · subst hk
        obtain rfl : rt = rtk := Option.some.inj (hrt.symm.trans hrtk)
        refine ⟨_, List.getElem?_set_self hlt, ?_, heff.quiet hdown⟩
        exact hdown.imp heff.closing fun hne => heff.current ▸ hne
      · refine ⟨rt, ?_, ?_, Quiet.refl rt⟩
        · rw [List.getElem?_set_ne hk]
          exact hrt
        · exact hdown.imp_right fun hne => heff.current ▸ hne
  | begin dispatch =>
    simp only [step, begin]
    split
    · exact ⟨rt, hrt, hdown, Quiet.refl rt⟩
    · refine ⟨if s.app.current = i then { rt with closing := true } else rt, ?_,
        Or.inr (Nat.ne_of_gt hlt), ?_⟩
      · rw [List.getElem?_append_left (by rwa [List.length_modify]), List.getElem?_modify, hrt]
        rfl
      · split
        · exact Quiet.of_eq rfl
        · exact Quiet.refl rt
  | configure =>
    refine ⟨rt, ?_, Or.inr (Nat.ne_of_gt hlt), Quiet.refl rt⟩
    simp only [step, configure]
    rw [List.getElem?_append_left hlt]
    exact hrt
  | latch token failed => exact ⟨rt, hrt, hdown, Quiet.refl rt⟩

theorem down_run (hrt : s.runtimes[i]? = some rt) (hdown : Down s i rt) (actions : List Action) :
    ∃ rt', (run step s actions).runtimes[i]? = some rt' ∧ Down (run step s actions) i rt'
      ∧ Quiet rt rt' := by
  induction actions generalizing s rt with
  | nil => exact ⟨rt, hrt, hdown, Quiet.refl rt⟩
  | cons a actions ih =>
    obtain ⟨rt₁, hrt₁, hdown₁, hquiet₁⟩ := down_step hrt hdown a
    obtain ⟨rt₂, hrt₂, hdown₂, hquiet₂⟩ := ih hrt₁ hdown₁
    exact ⟨rt₂, hrt₂, hdown₂, hquiet₁.trans hquiet₂⟩

/-- In every interleaving: once a runtime is closing or replaced no verification for it answers
`True` and no probe is submitted; the admitted count is the number of verifications that wait for a
slot or have an unsettled probe, and `drained` is set exactly when it is zero; the shutdown releases
the lock when the initialization and every probe have settled, and where a failing initialization
has released it, no probe is ever submitted. -/
theorem readiness_never_reopens (actions : List Action) (i : Nat) (rt : Runtime)
    (hrt : (run step start actions).runtimes[i]? = some rt) :
    (Down (run step start actions) i rt → ∀ later, ∃ rt',
      (run step (run step start actions) later).runtimes[i]? = some rt'
        ∧ Down (run step (run step start actions) later) i rt' ∧ Quiet rt rt')
    ∧ (rt.admitted = rt.verifications.countP Verification.admits
        ∧ (rt.drained = true ↔ rt.admitted = 0))
    ∧ (rt.lock = .releasedByCleanup →
        rt.init.isSettled = true ∧ ∀ v ∈ rt.verifications, v.unsettled = false)
    ∧ (rt.lock = .releasedByInit → ∀ v ∈ rt.verifications, v.hasProbe = false) := by
  have hinv := inv_run inv_start actions
  have hsound := hinv.sound i rt hrt
  refine ⟨fun hdown later => down_run hrt hdown later, hinv.counted i rt hrt, fun hlock => ?_,
    fun hlock v hv => ?_⟩
  · have hafter := hsound.byCleanup hlock
    refine ⟨hsound.settled ?_, hsound.idle hafter⟩
    revert hafter
    cases rt.lifespan <;> intro hafter <;> first | rfl | cases hafter
  · have hfail := hsound.byInit hlock
    by_contra hprobe
    have hpass := hsound.probes v hv (Bool.not_eq_false _ ▸ hprobe)
    revert hfail hpass
    cases rt.init with
    | finished r => cases r <;> nofun
    | settled r => cases r <;> nofun
    | _ => nofun

/-- A lifespan is initialized, verifies one request and shuts down. -/
def wholeCycle : List Action :=
  let events : List Event := List.replicate 6 (.initThread .goOn)
    ++ [.settleInit, .verify false false .accepted true, .probeThread 0 .healthy,
      .probeThread 0 .healthy, .settleProbe 0, .resume 0 (.done false)]
    ++ List.replicate 7 (.lifespan .goOn)
  .begin .accepted :: events.map (Action.on 1)

theorem wholeCycle_releases_last :
    ∃ rt, (run step start wholeCycle).runtimes[1]? = some rt ∧ rt.lock = .releasedByCleanup
      ∧ rt.verifications = [.submitted (.returned true) (.settled .healthy)]
      ∧ rt.init.isSettled = true ∧ ∀ v ∈ rt.verifications, v.unsettled = false :=
  ⟨_, rfl, rfl, rfl, (readiness_never_reopens wholeCycle 1 _ rfl).2.2.1 rfl⟩

/-- The initialization of the first lifespan takes the lock and cannot load the store. -/
def failingInit : List Action :=
  .begin .accepted :: [.goOn, .goOn, .goOn, .fails false, .goOn].map fun c => .on 1 (.initThread c)

/-- The lock is released while the initialization has not settled. -/
theorem failingInit_releases_first :
    ∃ rt, (run step start failingInit).runtimes[1]? = some rt ∧ rt.lock = .releasedByInit
      ∧ rt.init.isSettled = false :=
  ⟨_, rfl, rfl, rfl⟩

end ContextIntelligence.Identity.Readiness
