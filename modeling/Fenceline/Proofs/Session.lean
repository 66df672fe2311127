import Fenceline.Proofs.Outcome
import Fenceline.Session

/-!
# What acts do

An act in two steps does the second one where the first one left the session, unless the first one failed
(`perform_bind`); the acts that a pool was handed go on where one of them failed (`perform_pooled`). From
this follow, step by step, for a list of acts and for a pool of them, the six things that are said of longer
acts: that they keep what holds of the session, whether they fail or not (`Keeps`); that they have a result as
long as something holds (`Thrives`); that they have certain results only (`Gives`); that they fail in certain
ways only (`FailsOnly`), also as long as something holds (`Guards`); and that they do not look at what was told
before (`Deaf`).
-/

namespace Fenceline

namespace Act

variable {α β : Type} {act : Act α} {f : α → Act β} {s t : Session}

/-! ## One act -/

/-- **An act in two steps.** -/
theorem perform_bind (act : Act α) (f : α → Act β) (s : Session) :
    (act >>= f).perform s =
      match act.perform s with
      | (.ok a, t) => (f a).perform t
      | (.error failure, t) => (.error failure, t) := by
  show (StateT.bind act (ExceptT.bindCont f)).run s = _
  simp only [perform, ExceptT.run, StateT.run, StateT.bind, bind]
  cases act s with
  | mk result t => cases result <;> rfl

theorem perform_bind_ok {a : α} (h : act.perform s = (.ok a, t)) : (act >>= f).perform s = (f a).perform t := by
  rw [perform_bind, h]

/-- What an act in two steps did: the first one failed, or the second one did the rest. -/
theorem perform_bind_cases {result : Except Failure β} (h : (act >>= f).perform s = (result, t)) :
    (∃ failure, act.perform s = (.error failure, t) ∧ result = .error failure) ∨
      ∃ a u, act.perform s = (.ok a, u) ∧ (f a).perform u = (result, t) := by
  rw [perform_bind] at h
  rcases hact : act.perform s with ⟨failure | a, u⟩
  · rw [hact] at h
    cases h
    exact .inl ⟨failure, rfl, rfl⟩
  · rw [hact] at h
    exact .inr ⟨a, u, rfl, h⟩

/-- What an act did whose first step only looks at the session. -/
theorem perform_look_cases {seen : Except Failure α} {result : Except Failure β} (hlook : act.perform s = (seen, s))
    (h : (act >>= f).perform s = (result, t)) :
    (∃ failure, seen = .error failure ∧ result = .error failure ∧ t = s) ∨
      ∃ a, seen = .ok a ∧ (f a).perform s = (result, t) := by
  rcases perform_bind_cases h with ⟨failure, hact, rfl⟩ | ⟨a, u, hact, h⟩
  · obtain ⟨rfl, rfl⟩ := Prod.mk.inj (hlook.symm.trans hact)
    exact .inl ⟨failure, rfl, rfl, rfl⟩
  · obtain ⟨rfl, rfl⟩ := Prod.mk.inj (hlook.symm.trans hact)
    exact .inr ⟨a, rfl, h⟩

@[simp] theorem perform_pure (a : α) (s : Session) : (pure a : Act α).perform s = (.ok a, s) :=
  rfl

@[simp] theorem perform_ofExcept (result : Except Failure α) (s : Session) :
    (ofExcept result).perform s = (result, s) :=
  rfl

@[simp] theorem perform_fail (failure : Failure) (s : Session) :
    (fail failure : Act α).perform s = (.error failure, s) :=
  rfl

@[simp] theorem perform_host (s : Session) : host.perform s = (.ok s.host, s) :=
  rfl

@[simp] theorem perform_setHost (h : Host) (s : Session) :
    (setHost h).perform s = (.ok (), { s with host := h }) :=
  rfl

@[simp] theorem perform_tell (events : List Event) (s : Session) :
    (tell events).perform s = (.ok (), { s with events := s.events ++ events }) :=
  rfl

/-- **Acts that only look** at the session give what they see in it. -/
theorem perform_mapM_of_looks {f : α → Act β} {g : α → Except Failure β} {xs : List α}
    (h : ∀ x ∈ xs, (f x).perform s = (g x, s)) : (xs.mapM f).perform s = (xs.mapM g, s) := by
  induction xs with
  | nil => rfl
  | cons x xs ih =>
    obtain ⟨hx, hxs⟩ := List.forall_mem_cons.1 h
    rw [List.mapM_cons, List.mapM_cons, perform_bind, hx]
    cases g x with
    | error failure => rfl
    | ok b =>
      dsimp only
      rw [perform_bind, ih hxs]
      cases xs.mapM g <;> rfl

/-- **One act of a pool is done, and then the others are**, whether it failed or not. -/
theorem perform_pooled (f : α → Act β) (x : α) (xs : List α) (s : Session) :
    (pooled f (x :: xs)).perform s =
      (do return (← ((f x).perform s).1) :: (← ((pooled f xs).perform ((f x).perform s).2).1),
        ((pooled f xs).perform ((f x).perform s).2).2) :=
  rfl

theorem perform_pooled_cons {f : α → Act β} {x : α} {xs : List α} {first : Except Failure β}
    {others : Except Failure (List β)} {u : Session} (hfirst : (f x).perform s = (first, t))
    (hothers : (pooled f xs).perform t = (others, u)) :
    (pooled f (x :: xs)).perform s = (do return (← first) :: (← others), u) := by
  rw [perform_pooled, hfirst, hothers]

/-- Where none of them fails, the acts of a pool are done one after the other. -/
theorem perform_pooled_of_mapM {f : α → Act β} {xs : List α} {ys : List β}
    (h : (xs.mapM f).perform s = (.ok ys, t)) : (pooled f xs).perform s = (.ok ys, t) := by
  induction xs generalizing s ys with
  | nil => exact h
  | cons x xs ih =>
    rw [List.mapM_cons] at h
    rcases perform_bind_cases h with ⟨_, -, hfails⟩ | ⟨y, u, hfirst, h⟩
    · cases hfails
    rcases perform_bind_cases h with ⟨_, -, hfails⟩ | ⟨rest, v, hothers, h⟩
    · cases hfails
    cases h
    exact perform_pooled_cons hfirst (ih hothers)

/-! ## What holds of the session -/

/-- **An act that keeps what holds of the session**, whether it fails or not. -/
def Keeps (P : Session → Prop) (act : Act α) : Prop :=
  ∀ s, P s → P (act.perform s).2

/-- **An act that has a result** and keeps what holds of the session. -/
def Thrives (P : Session → Prop) (act : Act α) : Prop :=
  ∀ s, P s → ∃ a t, act.perform s = (.ok a, t) ∧ P t

variable {P : Session → Prop}

theorem keeps_pure (a : α) : Keeps P (pure a) :=
  fun _ h => h

theorem keeps_ofExcept (result : Except Failure α) : Keeps P (ofExcept result) :=
  fun _ h => h

theorem keeps_host : Keeps P host :=
  fun _ h => h

theorem Keeps.bind (hact : Keeps P act) (hf : ∀ a, Keeps P (f a)) : Keeps P (act >>= f) := by
  intro s hs
  have hmiddle := hact s hs
  rw [perform_bind]
  generalize act.perform s = done at hmiddle
  obtain ⟨result, t⟩ := done
  cases result with
  | error failure => exact hmiddle
  | ok a => exact hf a t hmiddle

theorem keeps_mapM {f : α → Act β} {xs : List α} (h : ∀ x ∈ xs, Keeps P (f x)) : Keeps P (xs.mapM f) := by
  induction xs with
  | nil => exact keeps_pure []
  | cons x xs ih =>
    obtain ⟨hx, hxs⟩ := List.forall_mem_cons.1 h
    rw [List.mapM_cons]
    exact hx.bind fun _ => (ih hxs).bind fun _ => keeps_pure _

theorem keeps_pooled {f : α → Act β} {xs : List α} (h : ∀ x ∈ xs, Keeps P (f x)) : Keeps P (pooled f xs) := by
  induction xs with
  | nil => exact keeps_pure []
  | cons x xs ih =>
    obtain ⟨hx, hxs⟩ := List.forall_mem_cons.1 h
    intro s hs
    rw [perform_pooled]
    exact ih hxs _ (hx s hs)

theorem thrives_pure (a : α) : Thrives P (pure a) :=
  fun s h => ⟨a, s, rfl, h⟩

theorem Thrives.bind (hact : Thrives P act) (hf : ∀ a, Thrives P (f a)) : Thrives P (act >>= f) := by
  intro s hs
  obtain ⟨a, t, hdone, ht⟩ := hact s hs
  rw [perform_bind_ok hdone]
  exact hf a t ht

theorem thrives_mapM {f : α → Act β} {xs : List α} (h : ∀ x ∈ xs, Thrives P (f x)) :
    Thrives P (xs.mapM f) := by
  induction xs with
  | nil => exact thrives_pure []
  | cons x xs ih =>
    obtain ⟨hx, hxs⟩ := List.forall_mem_cons.1 h
    rw [List.mapM_cons]
    exact hx.bind fun _ => (ih hxs).bind fun _ => thrives_pure _

theorem thrives_pooled {f : α → Act β} {xs : List α} (h : ∀ x ∈ xs, Thrives P (f x)) :
    Thrives P (pooled f xs) := by
  intro s hs
  obtain ⟨bs, t, hdone, ht⟩ := thrives_mapM h s hs
  exact ⟨bs, t, perform_pooled_of_mapM hdone, ht⟩

/-! ## What an act gives -/

/-- **An act that has certain results only**, in whatever session. -/
def Gives (R : α → Prop) (act : Act α) : Prop :=
  ∀ s a t, act.perform s = (.ok a, t) → R a

variable {R : α → Prop} {R' : β → Prop}

theorem gives_any (act : Act α) : Gives (fun _ => True) act :=
  fun _ _ _ _ => trivial

theorem gives_pure {a : α} (h : R a) : Gives R (pure a) := by
  rintro s _ t ⟨⟩
  exact h

theorem gives_fail (failure : Failure) : Gives R (fail failure) := by
  rintro s a t ⟨⟩

theorem gives_ofExcept {result : Except Failure α} (h : ∀ a, result = .ok a → R a) :
    Gives R (ofExcept result) :=
  fun _ a _ ha => h a (Prod.ext_iff.1 ha).1

theorem Gives.bind (hact : Gives R act) (hf : ∀ a, R a → Gives R' (f a)) : Gives R' (act >>= f) := by
  intro s b u h
  rw [perform_bind] at h
  cases hdone : act.perform s with
  | mk result t =>
    rw [hdone] at h
    cases result with
    | error failure => cases h
    | ok a => exact hf a (hact s a t hdone) t b u h

/-! ## What an act fails with -/

/-- **An act that fails in some ways only.** -/
def FailsOnly (P : Failure → Prop) (act : Act α) : Prop :=
  ∀ s, FailsWith P (act.perform s).1

variable {Q : Failure → Prop}

theorem failsOnly_pure (a : α) : FailsOnly Q (pure a) :=
  fun _ => failsWith_ok a

theorem failsOnly_ofExcept {result : Except Failure α} (h : FailsWith Q result) : FailsOnly Q (ofExcept result) :=
  fun _ => h

theorem failsOnly_host : FailsOnly Q host :=
  fun s => failsWith_ok s.host

theorem failsOnly_setHost (h : Host) : FailsOnly Q (setHost h) :=
  fun _ => failsWith_ok ()

theorem failsOnly_tell (events : List Event) : FailsOnly Q (tell events) :=
  fun _ => failsWith_ok ()

theorem FailsOnly.bind (hact : FailsOnly Q act) (hf : ∀ a, FailsOnly Q (f a)) : FailsOnly Q (act >>= f) := by
  intro s
  have hfirst := hact s
  rw [perform_bind]
  generalize act.perform s = done at hfirst
  obtain ⟨result, t⟩ := done
  cases result with
  | error failure => exact failsWith_error (hfirst failure rfl)
  | ok a => exact hf a t

theorem FailsOnly.ite {c : Prop} [Decidable c] {other : Act α} (hact : FailsOnly Q act)
    (hother : FailsOnly Q other) : FailsOnly Q (if c then act else other) := by
  split
  · exact hact
  · exact hother

theorem failsOnly_mapM {f : α → Act β} {xs : List α} (h : ∀ x, FailsOnly Q (f x)) :
    FailsOnly Q (xs.mapM f) := by
  induction xs with
  | nil => exact failsOnly_pure []
  | cons x xs ih =>
    rw [List.mapM_cons]
    exact (h x).bind fun _ => ih.bind fun _ => failsOnly_pure _

/-- The acts of a pool fail in the ways in which one of them fails. -/
theorem failsWith_pooled {first : Except Failure β} {others : Except Failure (List β)} (hfirst : FailsWith Q first)
    (hothers : FailsWith Q others) : FailsWith Q (do return (← first) :: (← others)) :=
  hfirst.bind fun _ _ => hothers.bind fun _ _ => failsWith_ok _

theorem failsOnly_pooled {f : α → Act β} {xs : List α} (h : ∀ x, FailsOnly Q (f x)) :
    FailsOnly Q (pooled f xs) := by
  induction xs with
  | nil => exact failsOnly_pure []
  | cons x xs ih =>
    intro s
    rw [perform_pooled]
    exact failsWith_pooled (h x s) (ih _)

/-- **An act that fails in some ways only** in this session, and keeps what holds of it. -/
def Guards (P : Session → Prop) (Q : Failure → Prop) (s : Session) (act : Act α) : Prop :=
  FailsWith Q (act.perform s).1 ∧ P (act.perform s).2

theorem guards_pure (h : P s) (a : α) : Guards P Q s (pure a) :=
  ⟨failsWith_ok a, h⟩

theorem Guards.bind (hact : Guards P Q s act)
    (hf : ∀ a t, act.perform s = (.ok a, t) → P t → Guards P Q t (f a)) : Guards P Q s (act >>= f) := by
  obtain ⟨hfails, hkeeps⟩ := hact
  unfold Guards
  rw [perform_bind]
  generalize hdone : act.perform s = done at hfails hkeeps
  obtain ⟨result, t⟩ := done
  cases result with
  | error failure => exact ⟨failsWith_error (hfails failure rfl), hkeeps⟩
  | ok a => exact hf a t hdone hkeeps

/-- An act after a look at the host. -/
theorem guards_host_bind {f : Host → Act β} (h : Guards P Q s (f s.host)) : Guards P Q s (host >>= f) :=
  h

/-- An act after something that may fail. -/
theorem guards_ofExcept_bind {result : Except Failure α} (h : P s) (hresult : FailsWith Q result)
    (hf : ∀ a, result = .ok a → Guards P Q s (f a)) : Guards P Q s (ofExcept result >>= f) := by
  cases result with
  | error failure => exact ⟨failsWith_error (hresult failure rfl), h⟩
  | ok a => exact hf a rfl

theorem guards_mapM {f : α → Act β} {xs : List α} (hs : P s) (h : ∀ x ∈ xs, ∀ s, P s → Guards P Q s (f x)) :
    Guards P Q s (xs.mapM f) := by
  induction xs generalizing s with
  | nil => exact guards_pure hs []
  | cons x xs ih =>
    obtain ⟨hx, hxs⟩ := List.forall_mem_cons.1 h
    rw [List.mapM_cons]
    refine (hx s hs).bind fun _ t _ ht => ?_
    exact (ih ht hxs).bind fun _ u _ hu => guards_pure hu _

theorem guards_pooled {f : α → Act β} {xs : List α} (hs : P s)
    (h : ∀ x ∈ xs, ∀ s, P s → Guards P Q s (f x)) : Guards P Q s (pooled f xs) := by
  induction xs generalizing s with
  | nil => exact guards_pure hs []
  | cons x xs ih =>
    obtain ⟨hx, hxs⟩ := List.forall_mem_cons.1 h
    obtain ⟨hfirst, hmiddle⟩ := hx s hs
    obtain ⟨hothers, hend⟩ := ih hmiddle hxs
    rw [Guards, perform_pooled]
    exact ⟨failsWith_pooled hfirst hothers, hend⟩

/-! ## What was told before -/

/-- **An act that does not look at what was told** or launched before: on the same host it has the same
result and leaves the same host. -/
def Deaf (act : Act α) : Prop :=
  ∀ s t, s.host = t.host →
    (act.perform s).1 = (act.perform t).1 ∧ (act.perform s).2.host = (act.perform t).2.host

theorem deaf_pure (a : α) : Deaf (pure a) :=
  fun _ _ h => ⟨rfl, h⟩

theorem deaf_ofExcept (result : Except Failure α) : Deaf (ofExcept result) :=
  fun _ _ h => ⟨rfl, h⟩

theorem deaf_fail (failure : Failure) : Deaf (fail failure : Act α) :=
  fun _ _ h => ⟨rfl, h⟩

theorem deaf_host : Deaf host :=
  fun _ _ h => ⟨congrArg Except.ok h, h⟩

theorem deaf_setHost (h : Host) : Deaf (setHost h) :=
  fun _ _ _ => ⟨rfl, rfl⟩

theorem deaf_tell (events : List Event) : Deaf (tell events) :=
  fun _ _ h => ⟨rfl, h⟩

theorem deaf_log (level : Level) (topic : Topic) (message : Text) : Deaf (log level topic message) :=
  deaf_tell _

theorem Deaf.bind (hact : Deaf act) (hf : ∀ a, Deaf (f a)) : Deaf (act >>= f) := by
  intro s t hst
  obtain ⟨hresult, hhost⟩ := hact s t hst
  rw [perform_bind, perform_bind]
  generalize act.perform s = left at hresult hhost
  generalize act.perform t = right at hresult hhost
  obtain ⟨result, s'⟩ := left
  obtain ⟨other, t'⟩ := right
  obtain rfl : result = other := hresult
  cases result with
  | error failure => exact ⟨rfl, hhost⟩
  | ok a => exact hf a s' t' hhost

theorem Deaf.ite {c : Prop} [Decidable c] {other : Act α} (hact : Deaf act) (hother : Deaf other) :
    Deaf (if c then act else other) := by
  split
  · exact hact
  · exact hother

theorem deaf_mapM {f : α → Act β} {xs : List α} (h : ∀ x, Deaf (f x)) : Deaf (xs.mapM f) := by
  induction xs with
  | nil => exact deaf_pure []
  | cons x xs ih =>
    rw [List.mapM_cons]
    exact (h x).bind fun _ => ih.bind fun _ => deaf_pure _

theorem deaf_pooled {f : α → Act β} {xs : List α} (h : ∀ x, Deaf (f x)) : Deaf (pooled f xs) := by
  induction xs with
  | nil => exact deaf_pure []
  | cons x xs ih =>
    intro s t hst
    obtain ⟨hfirst, hhost⟩ := h x s t hst
    obtain ⟨hothers, hend⟩ := ih _ _ hhost
    rw [perform_pooled, perform_pooled, hfirst, hothers]
    exact ⟨rfl, hend⟩

end Act

end Fenceline
