import ObeyGateway.OAuth.CopilotLogout

/-!
# When a logout is final

For both managers: in every run that nothing under way disturbs, a session that a logout has closed stays
logged out until a later login stores its tokens. Without that, the reply to a refresh that has read its
credentials before brings the session back.
-/

namespace ObeyGateway.OAuth

open Tasks Revocation

theorem logout_law {s : System} {as : List (Act Choice)} {s' : Copilot.System} {as' : List (Act Copilot.Choice)}
    (hs : ∀ t, s.task t = .idle) (hs' : ∀ t, s'.task t = .idle)
    (h : Run.Along logoutSpec.step Undisturbed (.start s) as)
    (h' : Run.Along Copilot.logoutSpec.step Copilot.Undisturbed (.start s') as') :
    ((Run.run logoutSpec.step (.start s) as).closed = true → LoggedOut (Run.run logoutSpec.step (.start s) as).sys) ∧
      ((Run.run Copilot.logoutSpec.step (.start s') as').closed = true →
        Copilot.LoggedOut (Run.run Copilot.logoutSpec.step (.start s') as')) := by
  obtain ⟨hinv, hstate⟩ := inv_run hs h
  obtain ⟨hinv', hstate'⟩ := Copilot.inv_run hs' h'
  exact ⟨loggedOut_of_closed hinv hstate, Copilot.loggedOut_of_closed hinv' hstate'⟩

def sampleTokens : StoredTokens := ⟨"access", "refresh", 100, loginScope⟩

def loggedIn : System where
  shared := ⟨some sampleTokens, .authenticated 100 loginScope, some sampleTokens⟩
  task _ := .idle

/-- A call, or a step in which the reply is the one to a refresh. -/
def sampleChoice (call : Call) : Choice where
  call := call
  now := 0
  readable := true
  deleted := true
  outcome := .saved
  reply := .ok ⟨"late", none, 100, none⟩
  exchanged := none

/-- What task `t` does next, with `call` where it is idle. -/
def act (t : Nat) (call : Call) : Act Choice := ⟨t, sampleChoice call⟩

def logoutActs : List (Act Choice) := [act 0 .logout, act 0 .logout, act 0 .logout]

namespace Copilot

def sampleCredentials : CopilotCredentialCache := ⟨"github", "token", 100, "https://api", "machine", none, copilotOauthScope⟩

def loggedIn : System where
  shared := ⟨some (sampleCredentials.toStored 0), .authenticated 100, some sampleCredentials, none, none, none, fun _ => false⟩
  task _ := .idle

def sampleChoice (call : Call) : Choice where
  call := call
  now := 0
  readable := true
  deleted := true
  outcome := .saved
  machineId := "machine"
  reply := .ok ⟨"late", 100, "https://api", none⟩
  polled := none

def act (t : Nat) (call : Call) : Act Choice := ⟨t, sampleChoice call⟩

/-- Stops the loop, takes the login, deletes the file, empties the cache, resets the state. -/
def logoutActs : List (Act Choice) :=
  [act 0 .logout, act 0 .logout, act 0 .logout, act 0 .logout, act 0 .logout, act 0 .logout]

end Copilot

theorem undisturbed_of_ne_idle {x : Watched OAuthManager Task} {a : Act Choice} (h : x.sys.task a.task ≠ .idle) :
    Undisturbed x a := ⟨fun hidle => absurd hidle h, fun hidle => absurd hidle h⟩

theorem Copilot.undisturbed_of_ne {x : Watched CopilotTokenManager Task} {a : Act Choice}
    (hdelete : x.sys.task a.task ≠ .logoutDelete) (hreads : readsCache x.sys a = false) (hcall : publishes x.sys a = false) :
    Undisturbed x a :=
  ⟨fun hp => absurd hp hdelete, fun h => absurd h (by simp [hreads]), fun h => absurd h (by simp [hcall])⟩

/-- A logout, and a call for a token after it. -/
theorem logout_law_loggedIn :
    LoggedOut (Run.run logoutSpec.step (.start loggedIn) (logoutActs ++ [act 1 .getAccessToken])).sys ∧
      Copilot.LoggedOut (Run.run Copilot.logoutSpec.step (.start Copilot.loggedIn)
        (Copilot.logoutActs ++ [Copilot.act 1 .getCopilotToken])) := by
  have h : Run.Along logoutSpec.step Undisturbed (.start loggedIn) (logoutActs ++ [act 1 .getAccessToken]) := by
    refine ⟨⟨fun _ _ _ _ => ⟨id, id⟩, fun _ hcall => ?_⟩, undisturbed_of_ne_idle (by decide),
      undisturbed_of_ne_idle (by decide), ⟨fun _ hcall => ?_, fun _ hcall => ?_⟩, trivial⟩
    · cases hcall
    · cases hcall
    · cases hcall
  have h' : Run.Along Copilot.logoutSpec.step Copilot.Undisturbed (.start Copilot.loggedIn)
      (Copilot.logoutActs ++ [Copilot.act 1 .getCopilotToken]) := by
    refine ⟨?_, ?_, ?_, ?_, ?_, ?_, ?_, trivial⟩
    · exact Copilot.undisturbed_of_ne (by decide) (by decide) (by decide)
    · exact Copilot.undisturbed_of_ne (by decide) (by decide) (by decide)
    · exact Copilot.undisturbed_of_ne (by decide) (by decide) (by decide)
    · refine ⟨fun _ _ t => ?_, fun hreads => absurd hreads (by decide), fun hcall => absurd hcall (by decide)⟩
      by_cases ht : t = 0
      · subst ht
        exact ⟨fun hh => hh.2, fun hh => hh.2⟩
      · have htask : (Run.run Copilot.logoutSpec.step (.start Copilot.loggedIn) (Copilot.logoutActs.take 3)).sys.task t =
            .idle := (task_step_of_ne ht).trans ((task_step_of_ne ht).trans (task_step_of_ne ht))
        exact ⟨fun hh => Copilot.Task.plain_idle.holding (htask ▸ hh.2),
          fun hh => Copilot.Task.plain_idle.loggingIn (htask ▸ hh.2)⟩
    · exact Copilot.undisturbed_of_ne (by decide) (by decide) (by decide)
    · exact Copilot.undisturbed_of_ne (by decide) (by decide) (by decide)
    · exact Copilot.undisturbed_of_ne (by decide) (by decide) (by decide)
  have hlaw := logout_law (fun _ => rfl) (fun _ => rfl) h h'
  exact ⟨hlaw.1 (by decide), hlaw.2 (by decide)⟩

/-- A forced refresh has asked for new tokens when the logout comes, and the reply comes after it. -/
theorem late_reply_revives : (¬ ∀ (s : System) (as : List (Act Choice)), (∀ t, s.task t = .idle) →
      (Run.run logoutSpec.step (.start s) as).closed = true → LoggedOut (Run.run logoutSpec.step (.start s) as).sys) ∧
    ¬ ∀ (s : Copilot.System) (as : List (Act Copilot.Choice)), (∀ t, s.task t = .idle) →
      (Run.run Copilot.logoutSpec.step (.start s) as).closed = true →
        Copilot.LoggedOut (Run.run Copilot.logoutSpec.step (.start s) as) := by
  constructor
  · intro hfinal
    have hout := hfinal loggedIn
      ([act 1 .forceRefresh, act 1 .forceRefresh] ++ logoutActs ++ [act 1 .forceRefresh, act 1 .forceRefresh])
      (fun _ => rfl) (by decide)
    exact absurd hout.store (by decide)
  · intro hfinal
    have hout := hfinal Copilot.loggedIn
      ((List.replicate 5 (Copilot.act 1 .forceRefresh)) ++ Copilot.logoutActs ++
        (List.replicate 2 (Copilot.act 1 .forceRefresh)))
      (fun _ => rfl) (by decide)
    exact absurd hout.store (by decide)

end ObeyGateway.OAuth
