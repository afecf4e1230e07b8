import ObeyGateway.OAuth.Logout

/-!
# Logout of the Copilot session

`complete_logout` stops the loop and the login task before it deletes the file, but not the exchanges of
requests; and until it has emptied the cache a new exchange can begin with what is cached. Beyond that the
rules are those of `Revocation` again.
-/

namespace ObeyGateway.OAuth.Copilot

open Tasks Revocation

namespace Task

def Holding : Task → Prop
  | .exchanging _ _ _ | .cache _ _ | .authenticate _ _ | .reject _ _ => True
  | .save purpose _ => purpose ≠ .login
  | .loopWaiting _ _ | .loopMachineId _ _ | .loopLoadMachineId _ _ | .loopScopes _ _ _ => True
  | .loginReset stored => stored.isSome = true
  | _ => False

def LoggingIn : Task → Prop
  | .polling | .loginExchanging _ | .loginMachineId _ _ => True
  | .save purpose _ => purpose = .login
  | _ => False

def LoggingOut : Task → Prop
  | .logoutCache | .logoutState => True
  | _ => False

structure Plain (p : Task) : Prop where
  holding : ¬ p.Holding
  loggingIn : ¬ p.LoggingIn
  loggingOut : ¬ p.LoggingOut

theorem loggingOut_of_eq {p : Task} (h : p = .logoutState) : p.LoggingOut := h ▸ trivial

theorem plain_idle : Plain .idle := ⟨id, id, id⟩

end Task

def storesLogin : Task → SaveOutcome → Bool
  | .save .login _, outcome => outcome ≠ .refused
  | _, _ => false

def publishes (s : System) (a : Act Choice) : Bool :=
  s.task a.task = .idle && a.event.call = .login && s.shared.login.all fun u => s.task u = .idle

def Live (Q : Task → Prop) (s : System) (t : Nat) : Prop := dropped s t = false ∧ Q (s.task t)

def logoutSpec : Spec CopilotTokenManager Task Choice where
  next := next
  closes s a := s.task a.task = .logoutState
  starts := publishes
  opens s a := storesLogin (s.task a.task) a.event.outcome
  Holds := Live Task.Holding
  Fetches := Live Task.LoggingIn
  Revokes s t := (s.task t).LoggingOut
  Clears s t := s.task t = .logoutState
  Empty m := m.store = none
  Clean m := m.cache = none
  revokes_of_clears := Task.loggingOut_of_eq

def readsCache (s : System) (a : Act Choice) : Bool :=
  match s.task a.task with
  | .readCredentials => s.shared.cache.isSome
  | .loopTick => s.shared.cache.any fun creds => creds.copilotExpiresAt - a.event.now ≤ refreshWindowSecs
  | _ => false

/-- No exchange or login can go on when a logout deletes the file, nor begin or publish before the cache is empty. -/
def Undisturbed (x : Watched CopilotTokenManager Task) (a : Act Choice) : Prop :=
  (x.sys.task a.task = .logoutDelete → a.event.deleted = true →
    ∀ t, ¬ Live Task.Holding x.sys t ∧ ¬ Live Task.LoggingIn x.sys t) ∧
  (readsCache x.sys a = true → ∀ t, x.sys.task t ≠ .logoutCache) ∧
  (publishes x.sys a = true → ∀ t, ¬ (x.sys.task t).LoggingOut)

/-- Nothing is left of the session; the state can only tell of a login that has begun since. -/
structure LoggedOut (x : Watched CopilotTokenManager Task) : Prop where
  store : x.sys.shared.store = none
  cache : x.sys.shared.cache = none
  sessionState : x.sys.shared.sessionState = .unauthenticated ∨
    x.sys.shared.sessionState = .pending ∧ ∃ t, x.since t = true
  handsOut : ∀ a, handsOut x.sys a = none

section
variable {m : CopilotTokenManager} {c : Choice} {finished : Nat → Bool} {t u : Nat} {p : Task}

theorem aborted_abort {o : Option Nat} (h : m.aborted u = true) : (m.abort o).aborted u = true := by
  rcases o with _ | l
  · exact h
  show Function.update m.aborted l true u = true
  by_cases hu : u = l
  · rw [hu, Function.update_self]
  · rwa [Function.update_of_ne hu]

theorem aborted_stored {purpose : Purpose} : (m.stored purpose).1.aborted = m.aborted := by cases purpose <;> rfl

theorem aborted_onSaveError {purpose : Purpose} : (m.onSaveError purpose).1.aborted = m.aborted := by cases purpose <;> rfl

theorem aborted_resetLoginState {stored : Option CopilotStoredCredentials} :
    (m.resetLoginState c stored).aborted = m.aborted := by
  unfold CopilotTokenManager.resetLoginState
  split
  · split <;> rfl
  · rfl

theorem aborted_proceed (hu : u ≠ t) (h : m.aborted u = true) : (m.proceed c finished t p).1.aborted u = true := by
  cases p with
  | idle =>
    have hupdate : Function.update m.aborted t false u = true := by rwa [Function.update_of_ne hu]
    unfold CopilotTokenManager.proceed CopilotTokenManager.begin
    cases c.call with
    | startLoop | logout => exact hupdate
    | login =>
      dsimp only
      split <;> exact hupdate
    | _ =>
      dsimp only
      split <;> exact hupdate
  | loginRestart | loginEnd | logoutStop | logoutTake => exact aborted_abort h
  | exchanging githubToken machineId scopes =>
    rw [CopilotTokenManager.proceed]
    unfold CopilotTokenManager.onceReply
    split <;> exact h
  | save purpose creds =>
    unfold CopilotTokenManager.proceed CopilotTokenManager.save
    dsimp only
    split
    · exact h
    · rw [aborted_onSaveError]
      exact h
  | authenticate | reject =>
    unfold CopilotTokenManager.proceed
    rw [aborted_stored]
    exact h
  | loginReset stored =>
    rw [CopilotTokenManager.proceed]
    exact aborted_resetLoginState.symm ▸ h
  | expireCache | cache | loopWaiting | loopLoadMachineId | loopScopes | polling | loginMachineId | loginLoad
  | logoutAwait | logoutCache | logoutState => exact h
  | readCache | awaitLock | recheck | readCredentials | loopTick | loopMachineId | loginExchanging | logoutDelete =>
    rw [CopilotTokenManager.proceed]
    split <;> exact h

end

section
variable {x : Watched CopilotTokenManager Task} {a : Act Choice} {p p' : Task} {m' : CopilotTokenManager}

theorem aborted_next {s : System} {t u : Nat} {c : Choice} (hu : u ≠ t) (h : s.shared.aborted u = true) :
    (next s t c).1.aborted u = true := by
  unfold next
  split
  · exact h
  · exact aborted_proceed hu h

theorem live_of_step_of_ne {Q : Task → Prop} {t : Nat} (ht : t ≠ a.task) (h : Live Q (logoutSpec.step x a).sys t) :
    Live Q x.sys t := by
  have htask : (logoutSpec.step x a).sys.task t = x.sys.task t := task_step_of_ne ht
  refine ⟨?_, htask ▸ h.2⟩
  have hdropped := h.1
  unfold dropped at hdropped ⊢
  rw [htask] at hdropped
  rcases haborted : x.sys.shared.aborted t with _ | _
  · rfl
  have haborted' : (logoutSpec.step x a).sys.shared.aborted t = true := aborted_next ht haborted
  rwa [haborted'] at hdropped

theorem live_of_step {Q : Task → Prop} {t : Nat} (hself : Q (next x.sys a.task a.event).2 → Live Q x.sys a.task)
    (h : Live Q (logoutSpec.step x a).sys t) : Live Q x.sys t := by
  by_cases ht : t = a.task
  · subst ht
    have htask : (logoutSpec.step x a).sys.task a.task = (next x.sys a.task a.event).2 := task_step_self
    exact hself (htask ▸ h.2)
  · exact live_of_step_of_ne ht h

variable (hd : dropped x.sys a.task = false) (hp : x.sys.task a.task = p)

theorem closes_of_ne (hp : x.sys.task a.task = p) (hne : p ≠ .logoutState) : logoutSpec.closes x.sys a = false :=
  decide_eq_false (hp ▸ hne)

theorem opens_eq (hp : x.sys.task a.task = p) : logoutSpec.opens x.sys a = storesLogin p a.event.outcome := by
  rw [← hp]
  rfl

include hd hp

theorem next_eq : next x.sys a.task a.event = x.sys.shared.proceed a.event (fun u => x.sys.task u = .idle) a.task p := by
  rw [next, hd, hp]
  rfl

theorem live_iff {Q : Task → Prop} : Live Q x.sys a.task ↔ Q p := by simp [Live, hd, hp]

theorem not_closed_of_holding (h : logoutSpec.Inv x) (hholding : p.Holding) : ¬ logoutSpec.Closed x :=
  h.not_closed (t := a.task) ((live_iff hd hp).2 hholding)

section
variable (hn : x.sys.shared.proceed a.event (fun u => x.sys.task u = .idle) a.task p = (m', p'))
  (hne : p ≠ .logoutState)
include hn hne

theorem inv_quiet (h : logoutSpec.Inv x) (hstore : x.sys.shared.store = none → m'.store = none)
    (hcache : x.sys.shared.cache = none → m'.cache = none) (hholding : p'.Holding → p.Holding)
    (hin : p'.LoggingIn → p.LoggingIn) (hout : ¬ p'.LoggingOut) : logoutSpec.Inv (logoutSpec.step x a) := by
  have hlive {Q : Task → Prop} : Live Q x.sys a.task ↔ Q p := live_iff hd hp
  have hnext : next x.sys a.task a.event = (m', p') := (next_eq hd hp).trans hn
  have hshared : (logoutSpec.step x a).sys.shared = m' := shared_step_eq hnext
  refine h.quiet (closes_of_ne hp hne) (hshared ▸ hstore) (hshared ▸ hcache) ?_ ?_ ?_ ?_
  · exact fun t => live_of_step fun hh => hlive.2 (hholding (by rwa [hnext] at hh))
  · exact fun t => live_of_step fun hh => hlive.2 (hin (by rwa [hnext] at hh))
  · exact fun t => of_step_eq (Q := Task.LoggingOut) hnext fun hh => absurd hh hout
  · exact fun t => of_step_eq (Q := (· = Task.logoutState)) hnext fun hh => absurd (Task.loggingOut_of_eq hh) hout

theorem inv_plain (h : logoutSpec.Inv x) (hstore : x.sys.shared.store = none → m'.store = none)
    (hcache : x.sys.shared.cache = none → m'.cache = none) (hplain : p'.Plain) :
    logoutSpec.Inv (logoutSpec.step x a) :=
  inv_quiet hd hp hn hne h hstore hcache (absurd · hplain.holding) (absurd · hplain.loggingIn) hplain.loggingOut

theorem inv_held (hopen : ¬ logoutSpec.Closed x) (hout : ¬ p'.LoggingOut) : logoutSpec.Inv (logoutSpec.step x a) :=
  Spec.Inv.held (closes_of_ne hp hne) hopen fun _ =>
    of_step_eq (Q := Task.LoggingOut) ((next_eq hd hp).trans hn) fun hh => absurd hh hout

end

theorem inv_clear (hn : x.sys.shared.proceed a.event (fun u => x.sys.task u = .idle) a.task p = (m', p'))
    (h : logoutSpec.Inv x) (hout : p.LoggingOut) (hstore : x.sys.shared.store = none → m'.store = none)
    (hcache : m'.cache = none) (hholding : ¬ p'.Holding) (hin : ¬ p'.LoggingIn) : logoutSpec.Inv (logoutSpec.step x a) := by
  have hnext : next x.sys a.task a.event = (m', p') := (next_eq hd hp).trans hn
  have hshared : (logoutSpec.step x a).sys.shared = m' := shared_step_eq hnext
  refine h.clear (show (x.sys.task a.task).LoggingOut from hp.symm ▸ hout) (hshared ▸ hstore) (hshared ▸ hcache) ?_ ?_
  · exact fun t => live_of_step fun hh => absurd (by rwa [hnext] at hh) hholding
  · exact fun t => live_of_step fun hh => absurd (by rwa [hnext] at hh) hin

omit hd hp

theorem not_closed_of_load (h : logoutSpec.Inv x) {creds : CopilotStoredCredentials}
    (hl : x.sys.shared.load a.event = some creds) : ¬ logoutSpec.Closed x := by
  intro hc
  have hempty : x.sys.shared.store = none := h.empty hc
  rw [CopilotTokenManager.load, hempty, ite_self] at hl
  cases hl

theorem not_closed_of_readsCache (h : logoutSpec.Inv x) (hu : Undisturbed x a) (hr : readsCache x.sys a = true)
    {creds : CopilotCredentialCache} (hc : x.sys.shared.cache = some creds) : ¬ logoutSpec.Closed x := by
  have hclean : ¬ logoutSpec.Clean x.sys.shared := fun hh => by
    rw [show logoutSpec.Clean x.sys.shared = (x.sys.shared.cache = none) from rfl, hc] at hh
    cases hh
  rintro (hclosed | ⟨t, ht⟩)
  · exact hclean (h.clean (.inl hclosed))
  · have hcases : x.sys.task t = .logoutCache ∨ x.sys.task t = .logoutState := by
      have hout : (x.sys.task t).LoggingOut := ht
      cases hp : x.sys.task t with
      | logoutCache => exact .inl rfl
      | logoutState => exact .inr rfl
      | _ => rw [hp] at hout; exact hout.elim
    rcases hcases with ht | ht
    · exact hu.2.1 hr t ht
    · exact hclean (h.clean (.inr ⟨t, ht⟩))

end

/-! ### The steps -/

section
variable {x : Watched CopilotTokenManager Task} {a : Act Choice}

theorem inv_dropped (h : logoutSpec.Inv x) (hd : dropped x.sys a.task = true) : logoutSpec.Inv (logoutSpec.step x a) := by
  have hnext : next x.sys a.task a.event = (x.sys.shared, .idle) := by rw [next, hd, if_pos rfl]
  have hshared : (logoutSpec.step x a).sys.shared = x.sys.shared := shared_step_eq hnext
  have hne : x.sys.task a.task ≠ .logoutState := by
    intro hp
    simp [dropped, hp, Task.awaits] at hd
  refine h.quiet (closes_of_ne rfl hne) (hshared ▸ id) (hshared ▸ id) ?_ ?_ ?_ ?_
  · exact fun t => live_of_step fun hh => (Task.plain_idle.holding (by rwa [hnext] at hh)).elim
  · exact fun t => live_of_step fun hh => (Task.plain_idle.loggingIn (by rwa [hnext] at hh)).elim
  · exact fun t => of_step_eq (Q := Task.LoggingOut) hnext fun hh => hh.elim
  · exact fun t => of_step_eq (Q := (· = Task.logoutState)) hnext (absurd · (by simp))

theorem plain_of_ite {b : Prop} [Decidable b] {p q : Task} (hp : p.Plain) (hq : q.Plain) : (if b then p else q).Plain := by
  split
  · exact hp
  · exact hq

theorem plain_begin {m : CopilotTokenManager} {c : Choice} {finished : Nat → Bool} {t : Nat}
    (h : ¬ (c.call = .login ∧ m.login.all finished = true)) : (m.begin c finished t).2.Plain := by
  unfold CopilotTokenManager.begin
  cases hcall : c.call with
  | getCopilotToken | forceRefresh =>
    dsimp only
    split <;> exact ⟨id, id, id⟩
  | startLoop | logout => exact ⟨id, id, id⟩
  | login =>
    dsimp only
    rw [if_neg fun hfree => h ⟨hcall, hfree⟩]
    exact Task.plain_idle

theorem begin_frame {m : CopilotTokenManager} {c : Choice} {finished : Nat → Bool} {t : Nat} :
    (m.begin c finished t).1.store = m.store ∧ (m.begin c finished t).1.cache = m.cache := by
  unfold CopilotTokenManager.begin
  cases c.call with
  | startLoop | logout => exact ⟨rfl, rfl⟩
  | login =>
    dsimp only
    split <;> exact ⟨rfl, rfl⟩
  | _ =>
    dsimp only
    split <;> exact ⟨rfl, rfl⟩

theorem inv_begin (h : logoutSpec.Inv x) (hu : Undisturbed x a) (hd : dropped x.sys a.task = false)
    (hp : x.sys.task a.task = .idle) : logoutSpec.Inv (logoutSpec.step x a) := by
  have hne : Task.idle ≠ .logoutState := by simp
  have hstore : (x.sys.shared.begin a.event (fun u => x.sys.task u = .idle) a.task).1.store = x.sys.shared.store ∧
      (x.sys.shared.begin a.event (fun u => x.sys.task u = .idle) a.task).1.cache = x.sys.shared.cache := begin_frame
  by_cases hpublishes : a.event.call = .login ∧ x.sys.shared.login.all (fun u => decide (x.sys.task u = .idle)) = true
  · obtain ⟨hcall, hfree⟩ := hpublishes
    have hpublishes : publishes x.sys a = true := by simp [publishes, hp, hcall, hfree]
    have hpolling : (x.sys.shared.begin a.event (fun u => x.sys.task u = .idle) a.task).2 = .polling := by
      rw [CopilotTokenManager.begin, hcall]
      dsimp only
      rw [hfree, if_pos rfl]
    have hnext : next x.sys a.task a.event =
        ((x.sys.shared.begin a.event (fun u => x.sys.task u = .idle) a.task).1, .polling) :=
      (next_eq hd hp).trans (Prod.ext rfl hpolling)
    have hshared : (logoutSpec.step x a).sys.shared = _ := shared_step_eq hnext
    refine h.fetch (closes_of_ne hp hne) hpublishes (hu.2.2 hpublishes) ?_ ?_ ?_ ?_ ?_
    · rw [hshared]
      exact fun hh => hstore.1.trans hh
    · rw [hshared]
      exact fun hh => hstore.2.trans hh
    · exact fun t => live_of_step fun hh => by rw [hnext] at hh; exact hh.elim
    · intro t ht
      by_cases hself : t = a.task
      · exact .inl hself
      · exact .inr (live_of_step_of_ne hself ht)
    · exact fun t => of_step_eq (Q := Task.LoggingOut) hnext (absurd · id)
  · exact inv_plain hd hp rfl hne h (fun hh => hstore.1.trans hh) (fun hh => hstore.2.trans hh) (plain_begin hpublishes)

end

section
variable {x : Watched CopilotTokenManager Task} {a : Act Choice}

theorem notLoggingOut_save {m : CopilotTokenManager} {c : Choice} {purpose : Purpose} {creds : CopilotCredentialCache} :
    ¬ (m.save c purpose creds).2.LoggingOut := by
  unfold CopilotTokenManager.save
  dsimp only
  split
  · exact id
  · cases purpose <;> exact id

theorem inv_saveLogin (h : logoutSpec.Inv x) (hd : dropped x.sys a.task = false) {creds : CopilotCredentialCache}
    (hp : x.sys.task a.task = .save .login creds) : logoutSpec.Inv (logoutSpec.step x a) := by
  have hne : Task.save .login creds ≠ .logoutState := by simp
  by_cases hrefused : a.event.outcome = .refused
  · have hn : x.sys.shared.proceed a.event (fun u => x.sys.task u = .idle) a.task (.save .login creds) =
        (x.sys.shared, .loginEnd) := by
      rw [CopilotTokenManager.proceed, CopilotTokenManager.save, hrefused]
      rfl
    exact inv_plain hd hp hn hne h id id ⟨id, id, id⟩
  · refine h.store (closes_of_ne hp hne) ?_ ((live_iff hd hp).2 rfl) ?_
    · rw [opens_eq hp]
      exact decide_eq_true hrefused
    · exact fun t => of_step_eq (Q := Task.LoggingOut) (next_eq hd hp) fun hh => (notLoggingOut_save hh).elim

theorem abort_store {m : CopilotTokenManager} {o : Option Nat} (h : m.store = none) : (m.abort o).store = none := by
  cases o <;> exact h

theorem abort_cache {m : CopilotTokenManager} {o : Option Nat} (h : m.cache = none) : (m.abort o).cache = none := by
  cases o <;> exact h

def Task.Quiet : Task → Prop
  | .readCache | .expireCache | .awaitLock | .recheck | .loginRestart | .loginEnd | .logoutStop | .logoutTake
  | .logoutAwait _ => True
  | _ => False

section
variable {m : CopilotTokenManager} {c : Choice} {finished : Nat → Bool} {t : Nat} {p : Task}

theorem quiet_proceed (h : p.Quiet) : (m.store = none → (m.proceed c finished t p).1.store = none) ∧
    (m.cache = none → (m.proceed c finished t p).1.cache = none) ∧ (m.proceed c finished t p).2.Plain := by
  cases p with
  | readCache | awaitLock | recheck =>
    rw [CopilotTokenManager.proceed]
    split <;> exact ⟨id, id, id, id, id⟩
  | expireCache => exact ⟨id, Option.map_eq_none_iff.2, id, id, id⟩
  | loginRestart | loginEnd | logoutStop => exact ⟨abort_store, abort_cache, id, id, id⟩
  | logoutTake =>
    refine ⟨abort_store, abort_cache, ?_⟩
    rw [CopilotTokenManager.proceed]
    cases m.login <;> exact ⟨id, id, id⟩
  | logoutAwait => exact ⟨id, id, plain_of_ite ⟨id, id, id⟩ ⟨id, id, id⟩⟩
  | _ => exact False.elim h

theorem notLoggingOut_proceed (h : p.Holding) : ¬ (m.proceed c finished t p).2.LoggingOut := by
  cases p with
  | exchanging =>
    rw [CopilotTokenManager.proceed]
    unfold CopilotTokenManager.onceReply
    split <;> exact id
  | save => exact notLoggingOut_save
  | authenticate purpose | reject purpose => cases purpose <;> exact id
  | loopWaiting githubToken attempt =>
    rw [CopilotTokenManager.proceed]
    unfold CopilotTokenManager.loopReply
    split
    · exact id
    · exact id
    · split <;> exact id
    · exact id
  | loopMachineId =>
    rw [CopilotTokenManager.proceed]
    split <;> exact id
  | cache | loopLoadMachineId | loopScopes | loginReset => exact id
  | _ => exact False.elim h

end

theorem inv_delete (h : logoutSpec.Inv x) (hu : Undisturbed x a) (hd : dropped x.sys a.task = false)
    (hp : x.sys.task a.task = .logoutDelete) (hdel : a.event.deleted = true) : logoutSpec.Inv (logoutSpec.step x a) := by
  have hquiet := hu.1 hp hdel
  have hnext : next x.sys a.task a.event = ({ x.sys.shared with store := none }, .logoutCache) := by
    rw [next_eq hd hp, CopilotTokenManager.proceed, hdel]
    rfl
  have hshared : (logoutSpec.step x a).sys.shared = { x.sys.shared with store := none } := shared_step_eq hnext
  refine h.revoke (closes_of_ne hp (by simp)) (by rw [hshared]; rfl) (by rw [hshared]; exact id) ?_ ?_ ?_
  · exact fun t ht => (hquiet t).1 (live_of_step (fun hh => by rw [hnext] at hh; exact absurd hh id) ht)
  · exact fun t ht => (hquiet t).2 (live_of_step (fun hh => by rw [hnext] at hh; exact absurd hh id) ht)
  · exact fun t => of_step_eq (Q := (· = Task.logoutState)) hnext (absurd · (by simp))

theorem inv_step (h : logoutSpec.Inv x) (hu : Undisturbed x a) : logoutSpec.Inv (logoutSpec.step x a) := by
  rcases hd : dropped x.sys a.task with _ | _
  swap
  · exact inv_dropped h hd
  by_cases hquiet : (x.sys.task a.task).Quiet
  · have hne : x.sys.task a.task ≠ .logoutState := fun hp => by rwa [hp] at hquiet
    obtain ⟨hstore, hcache, hplain⟩ := quiet_proceed hquiet
    exact inv_plain hd rfl (Prod.eta _).symm hne h hstore hcache hplain
  by_cases hholding : (x.sys.task a.task).Holding
  · have hne : x.sys.task a.task ≠ .logoutState := fun hp => by rwa [hp] at hholding
    exact inv_held hd rfl (Prod.eta _).symm hne (not_closed_of_holding hd rfl h hholding) (notLoggingOut_proceed hholding)
  cases hp : x.sys.task a.task with
  | idle => exact inv_begin h hu hd hp
  | readCredentials =>
    rcases hc : x.sys.shared.cache with _ | creds
    · rcases hl : x.sys.shared.load a.event with _ | stored
      · have hn : x.sys.shared.proceed a.event (fun u => x.sys.task u = .idle) a.task .readCredentials =
            (x.sys.shared.unlock, .idle) := by
          rw [CopilotTokenManager.proceed, hc, hl]
        exact inv_plain hd hp hn (by simp) h id id Task.plain_idle
      · exact inv_held hd hp (by rw [CopilotTokenManager.proceed, hc, hl]) (by simp) (not_closed_of_load h hl) id
    · have hopen : ¬ logoutSpec.Closed x := not_closed_of_readsCache h hu (by rw [readsCache, hp, hc]; rfl) hc
      exact inv_held hd hp (by rw [CopilotTokenManager.proceed, hc]) (by simp) hopen id
  | save purpose creds =>
    have hlogin : purpose = .login := by
      by_contra hne
      rw [hp] at hholding
      exact hholding hne
    exact inv_saveLogin h hd (hlogin ▸ hp)
  | loopTick =>
    rcases hc : x.sys.shared.cache with _ | creds
    · exact inv_plain hd hp (by rw [CopilotTokenManager.proceed, hc]) (by simp) h id id ⟨id, id, id⟩
    by_cases hr : creds.copilotExpiresAt - a.event.now ≤ refreshWindowSecs
    · have hreads : readsCache x.sys a = true := by
        rw [readsCache, hp, hc]
        exact decide_eq_true hr
      have hopen : ¬ logoutSpec.Closed x := not_closed_of_readsCache h hu hreads hc
      have hn : x.sys.shared.proceed a.event (fun u => x.sys.task u = .idle) a.task .loopTick =
          (x.sys.shared, .loopWaiting creds.githubAccessToken 0) := by
        rw [CopilotTokenManager.proceed, hc]
        exact congrArg _ (if_pos hr)
      exact inv_held hd hp hn (by simp) hopen id
    · have hn : x.sys.shared.proceed a.event (fun u => x.sys.task u = .idle) a.task .loopTick = (x.sys.shared, .loopTick) := by
        rw [CopilotTokenManager.proceed, hc]
        exact congrArg _ (if_neg hr)
      exact inv_plain hd hp hn (by simp) h id id ⟨id, id, id⟩
  | polling =>
    rcases hg : a.event.polled with _ | githubToken
    · exact inv_plain hd hp (by rw [CopilotTokenManager.proceed, hg]) (by simp) h id id ⟨id, id, id⟩
    · exact inv_quiet hd hp (by rw [CopilotTokenManager.proceed, hg]) (by simp) h id id (absurd · id) (fun _ => trivial) id
  | loginExchanging githubToken =>
    rcases hr : a.event.reply with _ | copilot
    · exact inv_plain hd hp (by rw [CopilotTokenManager.proceed, hr]) (by simp) h id id ⟨id, id, id⟩
    · exact inv_quiet hd hp (by rw [CopilotTokenManager.proceed, hr]) (by simp) h id id (absurd · id) (fun _ => trivial) id
  | loginMachineId githubToken copilot =>
    exact inv_quiet hd hp rfl (by simp) h id id (fun hh => absurd rfl hh) (fun _ => trivial) id
  | loginLoad =>
    rcases hl : x.sys.shared.load a.event with _ | stored
    · exact inv_plain hd hp (by rw [CopilotTokenManager.proceed, hl]) (by simp) h id id ⟨by simp [Task.Holding], id, id⟩
    · exact inv_held hd hp (by rw [CopilotTokenManager.proceed, hl]) (by simp) (not_closed_of_load h hl) id
  | loginReset stored =>
    rcases stored with _ | creds
    · exact inv_plain hd hp rfl (by simp) h id (fun _ => rfl) Task.plain_idle
    · exact absurd (show (x.sys.task a.task).Holding from hp ▸ rfl) hholding
  | logoutDelete =>
    rcases hdel : a.event.deleted with _ | _
    · exact inv_plain hd hp (by rw [CopilotTokenManager.proceed, hdel]; rfl) (by simp) h id id Task.plain_idle
    · exact inv_delete h hu hd hp hdel
  | logoutCache => exact inv_clear hd hp rfl h trivial id rfl id id
  | logoutState =>
    have hclean : x.sys.shared.cache = none := h.clean (.inr ⟨a.task, hp⟩)
    exact inv_clear hd hp rfl h trivial id hclean id id
  | _ =>
    rw [hp] at hquiet hholding
    first
    | exact absurd trivial hquiet
    | exact absurd trivial hholding

end

theorem sessionState_abort {m : CopilotTokenManager} {o : Option Nat} : (m.abort o).sessionState = m.sessionState := by
  cases o <;> rfl

/-- The steps that set the state: the ends of a logout and of a login, a publication, and what works with credentials.
-/
theorem sessionState_proceed {m : CopilotTokenManager} {c : Choice} {finished : Nat → Bool} {t : Nat} {p : Task}
    (hholding : ¬ p.Holding)
    (hbegin : ¬ (p = .idle ∧ c.call = .login ∧ m.login.all finished = true)) :
    (m.proceed c finished t p).1.sessionState = m.sessionState ∨
      (m.proceed c finished t p).1.sessionState = .unauthenticated := by
  cases p with
  | idle =>
    left
    rw [CopilotTokenManager.proceed]
    unfold CopilotTokenManager.begin
    cases hcall : c.call with
    | startLoop | logout => rfl
    | login =>
      dsimp only
      rw [if_neg fun hfree => hbegin ⟨rfl, hcall, hfree⟩]
    | _ =>
      dsimp only
      split <;> rfl
  | loginReset stored =>
    right
    cases stored with
    | none => rfl
    | some creds => exact absurd rfl hholding
  | logoutState => exact .inr rfl
  | loginRestart | loginEnd | logoutStop | logoutTake => exact .inl sessionState_abort
  | save purpose creds =>
    left
    by_cases hlogin : purpose = .login
    · subst hlogin
      rw [CopilotTokenManager.proceed]
      unfold CopilotTokenManager.save
      dsimp only
      split <;> rfl
    · exact absurd hlogin hholding
  | readCache | awaitLock | recheck | readCredentials | loopTick | logoutDelete =>
    rw [CopilotTokenManager.proceed]
    split <;> exact .inl rfl
  | expireCache | loginLoad | logoutAwait | logoutCache | polling => exact .inl rfl
  | loginExchanging githubToken =>
    rw [CopilotTokenManager.proceed]
    split <;> exact .inl rfl
  | loginMachineId githubToken copilot => exact .inl rfl
  | _ => exact absurd trivial hholding

/-- A session that is logged out is in the state that says so, or in that of a later login. -/
def StateKept (x : Watched CopilotTokenManager Task) : Prop :=
  x.closed = true → x.sys.shared.sessionState = .unauthenticated ∨
    x.sys.shared.sessionState = .pending ∧ ∃ t, x.since t = true

section
variable {x : Watched CopilotTokenManager Task} {a : Act Choice}

theorem stateKept_step (h : logoutSpec.Inv x) (hs : StateKept x) : StateKept (logoutSpec.step x a) := by
  intro hc
  by_cases hp : x.sys.task a.task = .logoutState
  · have hd : dropped x.sys a.task = false := by simp [dropped, hp, Task.awaits]
    exact .inl (congrArg (·.1.sessionState) (next_eq hd hp))
  · have hcloses : logoutSpec.closes x.sys a = false := closes_of_ne rfl hp
    have hclosed : x.closed = true := closed_of_step hcloses hc
    have hkeep (hsame : (logoutSpec.step x a).sys.shared.sessionState = x.sys.shared.sessionState) :
        (logoutSpec.step x a).sys.shared.sessionState = .unauthenticated ∨
          (logoutSpec.step x a).sys.shared.sessionState = .pending ∧ ∃ t, (logoutSpec.step x a).since t = true := by
      rw [hsame]
      exact (hs hclosed).imp_right fun ⟨hpending, t, ht⟩ => ⟨hpending, t, since_step hcloses ht⟩
    cases hd : dropped x.sys a.task with
    | true =>
      have hnext : next x.sys a.task a.event = (x.sys.shared, .idle) := by rw [next, hd, if_pos rfl]
      exact hkeep (congrArg (·.1.sessionState) hnext)
    | false =>
      have hnext := congrArg (·.1.sessionState) (next_eq hd rfl)
      by_cases hbegin : x.sys.task a.task = .idle ∧ a.event.call = .login ∧
          x.sys.shared.login.all (fun u => decide (x.sys.task u = .idle)) = true
      · obtain ⟨hidle, hcall, hfree⟩ := hbegin
        have hpublishes : publishes x.sys a = true := by simp [publishes, hidle, hcall, hfree]
        refine .inr ⟨hnext.trans ?_, a.task, since_step_self hcloses hpublishes⟩
        rw [hidle, CopilotTokenManager.proceed, CopilotTokenManager.begin, hcall]
        dsimp only
        rw [hfree, if_pos rfl]
      · have hholding : ¬ (x.sys.task a.task).Holding := fun hh => h.holds (.inl hclosed) a.task ⟨hd, hh⟩
        rcases sessionState_proceed hholding hbegin with hsame | hreset
        · exact hkeep (hnext.trans hsame)
        · exact .inl (hnext.trans hreset)

theorem loggedOut_of_closed (h : logoutSpec.Inv x) (hs : StateKept x) (hc : x.closed = true) : LoggedOut x where
  store := h.empty (.inl hc)
  cache := h.clean (.inl hc)
  sessionState := hs hc
  handsOut a := by
    have hcache : x.sys.shared.cache = none := h.clean (.inl hc)
    have hcached : x.sys.shared.cached a.event = none := by rw [CopilotTokenManager.cached, hcache]; rfl
    unfold Copilot.handsOut
    cases hp : x.sys.task a.task with
    | readCache | recheck => rw [hcached]; rfl
    | authenticate purpose creds =>
      cases purpose with
      | inline => exact absurd ⟨by simp [dropped, hp, Task.awaits], hp ▸ trivial⟩ (h.holds (.inl hc) a.task)
      | _ => rfl
    | _ => rfl

end

theorem inv_run {s : System} {as : List (Act Choice)} (hs : ∀ t, s.task t = .idle)
    (h : Run.Along logoutSpec.step Undisturbed (.start s) as) :
    logoutSpec.Inv (Run.run logoutSpec.step (.start s) as) ∧ StateKept (Run.run logoutSpec.step (.start s) as) := by
  refine Run.invariant (I := fun x => logoutSpec.Inv x ∧ StateKept x)
    (fun x a hx hu => ⟨inv_step hx.1 hu, stateKept_step hx.1 hx.2⟩) ⟨?_, fun hc => nomatch hc⟩ h
  exact .start fun t ht => by
    rw [show logoutSpec.Revokes s t = (s.task t).LoggingOut from rfl, hs t] at ht
    exact ht

end ObeyGateway.OAuth.Copilot
