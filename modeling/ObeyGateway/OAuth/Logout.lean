import ObeyGateway.Lib.Revocation
import ObeyGateway.OAuth.CopilotManager

/-!
# Logout

A logout deletes the file, empties the cache and resets the state, and nothing keeps a refresh that has
read its tokens before from writing all three afterwards. It is final as long as none is under way when
the file is deleted.
-/

namespace ObeyGateway.OAuth

open Tasks Revocation

namespace Task

def Holds : Task → Prop
  | .fillCache _ | .refreshing _ _ | .waiting _ _ _ | .apply _ _ _ | .cache _ | .authenticate _ | .expire => True
  | _ => False

def LoggingIn : Task → Prop
  | .exchanging | .storeLogin _ => True
  | _ => False

def LoggingOut : Task → Prop
  | .logoutCache | .logoutState => True
  | _ => False

structure Plain (p : Task) : Prop where
  holds : ¬ p.Holds
  loggingIn : ¬ p.LoggingIn
  loggingOut : ¬ p.LoggingOut

theorem plain_idle : Plain .idle := ⟨id, id, id⟩

theorem plain_readCache : Plain .readCache := ⟨id, id, id⟩

theorem plain_loadStore : Plain .loadStore := ⟨id, id, id⟩

theorem loggingOut_of_eq {p : Task} (h : p = .logoutState) : p.LoggingOut := h ▸ trivial

end Task

def storesLogin : Task → SaveOutcome → Bool
  | .storeLogin _, outcome => outcome ≠ .refused
  | _, _ => false

/-- A logout closes when it returns; a login that has begun since opens again when it writes the file. -/
def logoutSpec : Spec OAuthManager Task Choice where
  next := next
  closes s a := s.task a.task = .logoutState
  starts s a := s.task a.task = .idle && a.event.call = .login
  opens s a := storesLogin (s.task a.task) a.event.outcome
  Holds s t := (s.task t).Holds
  Fetches s t := (s.task t).LoggingIn
  Revokes s t := (s.task t).LoggingOut
  Clears s t := s.task t = .logoutState
  Empty m := m.store = none
  Clean m := m.tokenCache = none
  revokes_of_clears := Task.loggingOut_of_eq

/-- No refresh, look-up or login is under way when a logout deletes the file, and no login begins before
the logout has returned. -/
def Undisturbed (x : Watched OAuthManager Task) (a : Act Choice) : Prop :=
  (x.sys.task a.task = .idle → a.event.call = .logout → a.event.deleted = true →
    ∀ t, ¬ (x.sys.task t).Holds ∧ ¬ (x.sys.task t).LoggingIn) ∧
  (x.sys.task a.task = .idle → a.event.call = .login → ∀ t, ¬ (x.sys.task t).LoggingOut)

structure LoggedOut (s : System) : Prop where
  store : s.shared.store = none
  tokenCache : s.shared.tokenCache = none
  sessionState : s.shared.sessionState = .unauthenticated
  handsOut : ∀ a, handsOut s a = none

section
variable {x : Watched OAuthManager Task} {a : Act Choice} {p p' : Task} {m' : OAuthManager}

theorem next_eq (hp : x.sys.task a.task = p) : next x.sys a.task a.event = x.sys.shared.proceed a.event p := by
  rw [next, hp]

theorem closes_of_ne (hp : x.sys.task a.task = p) (hne : p ≠ .logoutState) : logoutSpec.closes x.sys a = false :=
  decide_eq_false (hp ▸ hne)

theorem opens_eq (hp : x.sys.task a.task = p) : logoutSpec.opens x.sys a = storesLogin p a.event.outcome := by
  rw [← hp]
  rfl

theorem inv_read (h : logoutSpec.Inv x) (hp : x.sys.task a.task = p)
    (hn : x.sys.shared.proceed a.event p = (x.sys.shared, p')) (hne : p ≠ .logoutState) (hholds : p'.Holds → p.Holds)
    (hin : p'.LoggingIn → p.LoggingIn) (hout : ¬ p'.LoggingOut) : logoutSpec.Inv (logoutSpec.step x a) := by
  rw [← next_eq hp] at hn
  have hshared : (logoutSpec.step x a).sys.shared = x.sys.shared := shared_step_eq hn
  subst hp
  refine h.quiet (closes_of_ne rfl hne) (hshared ▸ id) (hshared ▸ id) ?_ ?_ ?_ ?_
  · exact fun t => of_step_eq (Q := Task.Holds) hn hholds
  · exact fun t => of_step_eq (Q := Task.LoggingIn) hn hin
  · exact fun t => of_step_eq (Q := Task.LoggingOut) hn fun hh => absurd hh hout
  · exact fun t => of_step_eq (Q := (· = Task.logoutState)) hn fun hh => absurd (Task.loggingOut_of_eq hh) hout

theorem inv_plain (h : logoutSpec.Inv x) (hp : x.sys.task a.task = p)
    (hn : x.sys.shared.proceed a.event p = (x.sys.shared, p')) (hne : p ≠ .logoutState) (hplain : p'.Plain) :
    logoutSpec.Inv (logoutSpec.step x a) :=
  inv_read h hp hn hne (fun hh => absurd hh hplain.holds) (fun hh => absurd hh hplain.loggingIn) hplain.loggingOut

theorem inv_held (hopen : ¬ logoutSpec.Closed x) (hp : x.sys.task a.task = p)
    (hn : x.sys.shared.proceed a.event p = (m', p')) (hne : p ≠ .logoutState) (hout : ¬ p'.LoggingOut) :
    logoutSpec.Inv (logoutSpec.step x a) := by
  rw [← next_eq hp] at hn
  exact Spec.Inv.held (closes_of_ne hp hne) hopen fun t =>
    of_step_eq (Q := Task.LoggingOut) hn fun hh => absurd hh hout

theorem not_closed_of_load (h : logoutSpec.Inv x) {tokens : StoredTokens} (hl : x.sys.shared.load a.event = some tokens) :
    ¬ logoutSpec.Closed x := by
  intro hc
  have hempty : x.sys.shared.store = none := h.empty hc
  rw [OAuthManager.load, hempty, ite_self] at hl
  cases hl

theorem not_closed_of_holds (h : logoutSpec.Inv x) (hp : x.sys.task a.task = p) (hholds : p.Holds) :
    ¬ logoutSpec.Closed x := h.not_closed (t := a.task) (show (x.sys.task a.task).Holds from hp.symm ▸ hholds)

theorem inv_begin (h : logoutSpec.Inv x) (hu : Undisturbed x a) (hp : x.sys.task a.task = .idle) :
    logoutSpec.Inv (logoutSpec.step x a) := by
  have hne : Task.idle ≠ .logoutState := by simp
  have hproceed : x.sys.shared.proceed a.event .idle = x.sys.shared.begin a.event a.event.call := rfl
  cases hcall : a.event.call with
  | getAccessToken =>
    rw [hcall, OAuthManager.begin] at hproceed
    cases hs : x.sys.shared.sessionState with
    | authenticated | refreshing => exact inv_plain h hp (by rw [hproceed, hs]) hne Task.plain_readCache
    | unauthenticated | expired => exact inv_plain h hp (by rw [hproceed, hs]) hne Task.plain_idle
  | forceRefresh =>
    rw [hcall, OAuthManager.begin] at hproceed
    cases hl : x.sys.shared.load a.event with
    | none => exact inv_plain h hp (by rw [hproceed, hl]) hne Task.plain_idle
    | some tokens => exact inv_held (not_closed_of_load h hl) hp (by rw [hproceed, hl]) hne id
  | tick =>
    rw [hcall, OAuthManager.begin] at hproceed
    rcases hl : x.sys.shared.load a.event with _ | tokens
    · exact inv_plain h hp (by rw [hproceed, hl]) hne Task.plain_idle
    refine inv_held (not_closed_of_load h hl) hp (by rw [hproceed, hl]) hne ?_
    split <;> exact id
  | login =>
    rw [hcall] at hproceed
    have hno := hu.2 hp hcall
    have hnext : next x.sys a.task a.event = (x.sys.shared, .exchanging) := (next_eq hp).trans hproceed
    have hshared : (logoutSpec.step x a).sys.shared = x.sys.shared := shared_step_eq hnext
    refine h.fetch (closes_of_ne hp hne) ?_ hno (hshared ▸ id) (hshared ▸ id) ?_ ?_ ?_
    · show (decide _ && decide _) = true
      simp [hp, hcall]
    · exact fun t => of_step_eq (Q := Task.Holds) hnext (absurd · id)
    · intro t ht
      by_cases hself : t = a.task
      · exact .inl hself
      · have htask : (logoutSpec.step x a).sys.task t = x.sys.task t := task_step_of_ne hself
        exact .inr (show (x.sys.task t).LoggingIn from htask ▸ ht)
    · exact fun t => of_step_eq (Q := Task.LoggingOut) hnext (absurd · id)
  | logout =>
    rw [hcall, OAuthManager.begin] at hproceed
    rcases hd : a.event.deleted with _ | _
    · exact inv_plain h hp (by rw [hproceed, hd]; rfl) hne Task.plain_idle
    have hquiet := hu.1 hp hcall hd
    have hnext : next x.sys a.task a.event = ({ x.sys.shared with store := none }, .logoutCache) := by
      rw [next_eq hp, hproceed, hd]
      rfl
    have hshared : (logoutSpec.step x a).sys.shared = { x.sys.shared with store := none } := shared_step_eq hnext
    refine h.revoke (closes_of_ne hp hne) (by rw [hshared]; rfl) (by rw [hshared]; exact id) ?_ ?_ ?_
    · exact forall_step_eq (Q := (¬ ·.Holds)) hnext id fun t => (hquiet t).1
    · exact forall_step_eq (Q := (¬ ·.LoggingIn)) hnext id fun t => (hquiet t).2
    · exact fun t => of_step_eq (Q := (· = Task.logoutState)) hnext (absurd · (by simp))

theorem inv_storeLogin (h : logoutSpec.Inv x) {tokens : StoredTokens} (hp : x.sys.task a.task = .storeLogin tokens) :
    logoutSpec.Inv (logoutSpec.step x a) := by
  have hne : Task.storeLogin tokens ≠ .logoutState := by simp
  have hproceed : x.sys.shared.proceed a.event (.storeLogin tokens) = x.sys.shared.save a.event tokens .idle := rfl
  by_cases hout : a.event.outcome = .refused
  · have hn : x.sys.shared.proceed a.event (.storeLogin tokens) = (x.sys.shared, .idle) := by
      rw [hproceed, OAuthManager.save, hout]
      rfl
    exact inv_plain h hp hn hne Task.plain_idle
  · refine h.store (closes_of_ne hp hne) ?_ (show (x.sys.task a.task).LoggingIn from hp.symm ▸ trivial) ?_
    · rw [opens_eq hp]
      exact decide_eq_true hout
    · refine fun t => of_step_eq (Q := Task.LoggingOut) ((next_eq hp).trans hproceed) fun hh => absurd hh ?_
      split <;> exact id

theorem inv_step (h : logoutSpec.Inv x) (hu : Undisturbed x a) : logoutSpec.Inv (logoutSpec.step x a) := by
  cases hp : x.sys.task a.task with
  | idle => exact inv_begin h hu hp
  | readCache =>
    rcases hc : x.sys.shared.tokenCache with _ | tokens
    · exact inv_plain h hp (by rw [OAuthManager.proceed, hc]) (by simp) Task.plain_loadStore
    refine inv_plain h hp (by rw [OAuthManager.proceed, hc]) (by simp) ?_
    split
    · exact Task.plain_loadStore
    · exact Task.plain_idle
  | loadStore =>
    rcases hl : x.sys.shared.load a.event with _ | tokens
    · exact inv_plain h hp (by rw [OAuthManager.proceed, hl]) (by simp) Task.plain_idle
    refine inv_held (not_closed_of_load h hl) hp (by rw [OAuthManager.proceed, hl]) (by simp) ?_
    split <;> exact id
  | fillCache | refreshing => exact inv_held (not_closed_of_holds h hp trivial) hp rfl (by simp) id
  | waiting caller previous attempt =>
    refine inv_held (not_closed_of_holds h hp trivial) hp rfl (by simp) ?_
    unfold OAuthManager.reply
    split
    · exact id
    · split <;> exact id
    · exact id
  | apply caller previous response =>
    refine inv_held (not_closed_of_holds h hp trivial) hp rfl (by simp) ?_
    split
    · exact id
    · cases caller <;> exact id
  | cache | authenticate | expire => exact inv_held (not_closed_of_holds h hp trivial) hp rfl (by simp) id
  | exchanging =>
    rcases hr : a.event.exchanged with _ | response
    · exact inv_plain h hp (by rw [OAuthManager.proceed, hr]; rfl) (by simp) Task.plain_idle
    exact inv_read h hp (by rw [OAuthManager.proceed, hr]) (by simp) (absurd · id) (fun _ => trivial) id
  | storeLogin tokens => exact inv_storeLogin h hp
  | logoutCache =>
    have hnext : next x.sys a.task a.event = ({ x.sys.shared with tokenCache := none }, .logoutState) := next_eq hp
    have hshared : (logoutSpec.step x a).sys.shared = { x.sys.shared with tokenCache := none } := shared_step_eq hnext
    refine h.clear (show (x.sys.task a.task).LoggingOut from hp.symm ▸ trivial) (by rw [hshared]; exact id)
      (by rw [hshared]; rfl) ?_ ?_
    · exact fun t => of_step_eq (Q := Task.Holds) hnext (absurd · id)
    · exact fun t => of_step_eq (Q := Task.LoggingIn) hnext (absurd · id)
  | logoutState =>
    have hnext : next x.sys a.task a.event = ({ x.sys.shared with sessionState := .unauthenticated }, .idle) := next_eq hp
    have hshared : (logoutSpec.step x a).sys.shared = { x.sys.shared with sessionState := .unauthenticated } :=
      shared_step_eq hnext
    have hclean : x.sys.shared.tokenCache = none := h.clean (.inr ⟨a.task, hp⟩)
    refine h.clear (show (x.sys.task a.task).LoggingOut from hp.symm ▸ trivial) (by rw [hshared]; exact id)
      (by rw [hshared]; exact hclean) ?_ ?_
    · exact fun t => of_step_eq (Q := Task.Holds) hnext (absurd · id)
    · exact fun t => of_step_eq (Q := Task.LoggingIn) hnext (absurd · id)

end

theorem sessionState_proceed {m : OAuthManager} {c : Choice} {p : Task} (hholds : ¬ p.Holds) (hne : p ≠ .logoutState) :
    (m.proceed c p).1.sessionState = m.sessionState := by
  cases p with
  | idle =>
    unfold OAuthManager.proceed OAuthManager.begin
    cases c.call with
    | logout => dsimp only; split <;> rfl
    | login => rfl
    | _ => dsimp only; split <;> rfl
  | readCache | loadStore => unfold OAuthManager.proceed; dsimp only; split <;> rfl
  | exchanging | storeLogin | logoutCache => rfl
  | logoutState => exact absurd rfl hne
  | _ => exact absurd trivial hholds

def StateKept (x : Watched OAuthManager Task) : Prop := x.closed = true → x.sys.shared.sessionState = .unauthenticated

section
variable {x : Watched OAuthManager Task} {a : Act Choice}

theorem stateKept_step (h : logoutSpec.Inv x) (hs : StateKept x) : StateKept (logoutSpec.step x a) := by
  intro hc
  by_cases hp : x.sys.task a.task = .logoutState
  · exact congrArg (·.1.sessionState) (next_eq hp)
  · have hclosed : x.closed = true := closed_of_step (closes_of_ne rfl hp) hc
    have hholds : ¬ (x.sys.task a.task).Holds := h.holds (.inl hclosed) a.task
    exact (sessionState_proceed hholds hp).trans (hs hclosed)

theorem loggedOut_of_closed (h : logoutSpec.Inv x) (hs : StateKept x) (hc : x.closed = true) : LoggedOut x.sys where
  store := h.empty (.inl hc)
  tokenCache := h.clean (.inl hc)
  sessionState := hs hc
  handsOut a := by
    have hholds : ¬ (x.sys.task a.task).Holds := h.holds (.inl hc) a.task
    have hcache : x.sys.shared.tokenCache = none := h.clean (.inl hc)
    unfold OAuth.handsOut
    cases hp : x.sys.task a.task with
    | readCache => rw [hcache]
    | fillCache tokens => exact absurd (hp ▸ trivial) hholds
    | _ => rfl

end

theorem inv_run {s : System} {as : List (Act Choice)} (hs : ∀ t, s.task t = .idle)
    (h : Run.Along logoutSpec.step Undisturbed (.start s) as) :
    logoutSpec.Inv (Run.run logoutSpec.step (.start s) as) ∧ StateKept (Run.run logoutSpec.step (.start s) as) := by
  refine Run.invariant (I := fun x => logoutSpec.Inv x ∧ StateKept x)
    (fun x a hx hu => ⟨inv_step hx.1 hu, stateKept_step hx.1 hx.2⟩) ⟨?_, fun hc => nomatch hc⟩ h
  exact .start fun t ht => by
    rw [show logoutSpec.Revokes s t = (s.task t).LoggingOut from rfl, hs t] at ht
    exact ht

end ObeyGateway.OAuth
