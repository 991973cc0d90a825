import FileExchange.Serve.Dispatch

/-!
# Runs of serving steps

How a step of serving that is made of other steps runs, one equation for each way of making one.
-/

set_option autoImplicit false

namespace FileExchange

instance decidableEqExcept {ε α : Type} [DecidableEq ε] [DecidableEq α] : DecidableEq (Except ε α)
  | .ok a, .ok b => decidable_of_iff (a = b) ⟨congrArg _, Except.ok.inj⟩
  | .error e, .error e' => decidable_of_iff (e = e') ⟨congrArg _, Except.error.inj⟩
  | .ok _, .error _ => isFalse nofun
  | .error _, .ok _ => isFalse nofun

end FileExchange

namespace FileExchange.Serving

variable {α β : Type}

/-! ## Composition -/

@[simp] theorem run_pure (a : α) (x : Exchange) : (pure a : Serving α) x = (.ok a, x) := rfl

theorem run_bind (f : Serving α) (g : α → Serving β) (x : Exchange) :
    (f >>= g) x = match f x with
      | (.ok a, y) => g a y
      | (.error e, y) => (.error e, y) := by
  change (ExceptT.bindCont g (f x).1 : StateM Exchange _) (f x).2 = _
  rcases f x with ⟨r | r, y⟩ <;> rfl

theorem run_bind_ok {f : Serving α} {g : α → Serving β} {x y : Exchange} {a : α}
    (h : f x = (.ok a, y)) : (f >>= g) x = g a y := by
  rw [run_bind, h]

theorem run_bind_error {f : Serving α} {g : α → Serving β} {x y : Exchange} {e : Failure}
    (h : f x = (.error e, y)) : (f >>= g) x = (.error e, y) := by
  rw [run_bind, h]

/-- A composed step that succeeds has passed through an exchange in between. -/
theorem run_bind_eq_ok {f : Serving α} {g : α → Serving β} {x z : Exchange} {b : β}
    (h : (f >>= g) x = (.ok b, z)) : ∃ a y, f x = (.ok a, y) ∧ g a y = (.ok b, z) := by
  rw [run_bind] at h
  split at h
  · rename_i a y hf
    exact ⟨a, y, hf, h⟩
  · cases h

theorem run_discard_ok {f : Serving α} {x y : Exchange} {a : α} (h : f x = (.ok a, y)) :
    (discard f : Serving PUnit) x = (.ok ⟨⟩, y) := by
  change (f >>= fun _ => pure PUnit.unit) x = _
  rw [run_bind_ok h, run_pure]

theorem run_discard_error {f : Serving α} {x y : Exchange} {e : Failure} (h : f x = (.error e, y)) :
    (discard f : Serving PUnit) x = (.error e, y) := by
  change (f >>= fun _ => pure PUnit.unit) x = _
  rw [run_bind_error h]

/-! ## Single steps -/

@[simp] theorem run_ask (f : Exchange → Except Failure α) (x : Exchange) : ask f x = (f x, x) := rfl

theorem run_ask_bind_ok {f : Exchange → Except Failure α} {g : α → Serving β} {x : Exchange} {a : α}
    (h : f x = .ok a) : (ask f >>= g) x = g a x :=
  run_bind_ok (by rw [run_ask, h])

theorem run_ask_bind_error {f : Exchange → Except Failure α} {g : α → Serving β} {x : Exchange} {e : Failure}
    (h : f x = .error e) : (ask f >>= g) x = (.error e, x) :=
  run_bind_error (by rw [run_ask, h])

@[simp] theorem run_inspect (f : Exchange → α) (x : Exchange) : inspect f x = (.ok (f x), x) := rfl

@[simp] theorem run_change (f : Exchange → Exchange) (x : Exchange) :
    change f x = (.ok (), f x) := rfl

@[simp] theorem run_attempt (step : Serving α) (x : Exchange) :
    attempt step x = (.ok (step x).1, (step x).2) := rfl

@[simp] theorem run_log (level : Level) (speaker : Speaker) (message : String) (x : Exchange) :
    log level speaker message x =
      (.ok (), { x with toWorld := x.toWorld.log level speaker message }) := rfl

@[simp] theorem run_report (level : Level) (speaker : Speaker) (message : String) (x : Exchange) :
    report level speaker message x =
      (.ok (), { x with
        toWorld := x.toWorld.log level speaker ("[" ++ x.connection.id ++ "] " ++ message) }) := rfl

@[simp] theorem run_enter (phase : Phase) (x : Exchange) :
    enter phase x = (.ok (), { x with connection := { x.connection with phase } }) := rfl

@[simp] theorem run_readLine (x : Exchange) :
    readLine x = (x.connection.readLine.1, { x with connection := x.connection.readLine.2 }) := rfl

end FileExchange.Serving

namespace FileExchange

/-! ## The request of an exchange -/

/-- What the line at the front of the stream asks for, if it is a request. -/
def Exchange.request? (x : Exchange) : Option Request :=
  match x.connection.readLine.1 with
  | .ok line => (Request.parse (line.map Request.decodeLine)).toOption
  | .error _ => none

/-- The exchange once the request line has been read and understood. -/
def Exchange.begun (x : Exchange) : Exchange :=
  { x with connection := { x.connection.readLine.2 with phase := .processing } }

/-- A connection on which one line arrives, in a world where nothing else happens. -/
def Exchange.ofLine (t : Tree) (line : String) : Exchange where
  tree := t
  clock := { now := ⟨0⟩, stamp := "" }
  tokens := toString
  connectionNames := toString
  connection := { id := "0", clientIp := "", peer := { inbound := [.data (Utf8.encode line)] } }

/-- Somebody asks for a target. -/
def Exchange.Asks (x : Exchange) (target : String) : Prop :=
  ∃ r, x.request? = some r ∧ r.method = .get ∧ r.target = target

namespace Site

open Serving

theorem run_answer_of_request {s : Site} {x : Exchange} {r : Request} (h : x.request? = some r) :
    s.answer x =
      ((if r.isUpload then s.answerUpload r.target else s.answerGet r.target) >>=
        fun outcome => pure (some r, outcome)) x.begun := by
  unfold Exchange.request? at h
  split at h
  · rename_i line hline
    have hparse : Request.parse (line.map Request.decodeLine) = .ok r := by
      cases hp : Request.parse (line.map Request.decodeLine) with
      | error e => simp [hp, Except.toOption] at h
      | ok r' => simpa [hp, Except.toOption] using h
    have hattempt : attempt readLine x =
        (.ok (.ok line), { x with connection := x.connection.readLine.2 }) := by
      rw [run_attempt, run_readLine, hline]
    rw [answer, run_bind_ok hattempt]
    simp only [answerLine, hparse]
    rw [run_bind_ok (run_enter .processing _)]
    cases r.isUpload <;> rfl
  · cases h

theorem answer_get {s : Site} {x : Exchange} {r : Request} (h : x.request? = some r)
    (hget : r.method = .get) :
    s.answer x =
      (s.answerGet r.target >>= fun outcome => pure (some r, outcome)) x.begun := by
  have hupload : r.isUpload = false := by simp [Request.isUpload, hget]
  rw [run_answer_of_request h, hupload]
  rfl

theorem answer_upload {s : Site} {x : Exchange} {r : Request} (h : x.request? = some r)
    (hupload : r.method = .upload) :
    s.answer x =
      (s.answerUpload r.target >>= fun outcome => pure (some r, outcome)) x.begun := by
  have hisUpload : r.isUpload = true := by simp [Request.isUpload, hupload]
  rw [run_answer_of_request h, hisUpload]
  rfl

/-! ## The request behind its record -/

/-- Dispatching is answering, and a record of how that went. -/
theorem dispatch_eq_ok {s : Site} {x y : Exchange} {code : Nat} (h : s.dispatch x = (.ok code, y)) :
    ∃ request outcome z, s.answer x = (.ok (request, outcome), z) ∧ code = outcomeCode outcome ∧
      y.connection = z.connection ∧ y.tree = z.tree := by
  unfold dispatch at h
  obtain ⟨r, z, hattempt, h⟩ := run_bind_eq_ok h
  rw [run_attempt] at hattempt
  cases hattempt
  cases hr : (s.answer x).1 with
  | error e =>
    rw [hr] at h
    obtain ⟨_, _, _, h⟩ := run_bind_eq_ok h
    cases h
  | ok a =>
    obtain ⟨request, outcome⟩ := a
    rw [hr] at h
    obtain ⟨_, y', hrecord, h⟩ := run_bind_eq_ok h
    rw [run_pure] at h
    cases h
    refine ⟨request, outcome, (s.answer x).2, Prod.ext hr rfl, rfl, ?_⟩
    unfold recordAccess at hrecord
    obtain ⟨_, _, hinspect, hlog⟩ := run_bind_eq_ok hrecord
    rw [run_inspect] at hinspect
    cases hinspect
    rw [run_log] at hlog
    cases hlog
    exact ⟨rfl, rfl⟩

theorem run_recordAccess (s : Site) (request : Option Request) (outcome : Outcome) (x : Exchange) :
    ∃ journal, s.recordAccess request outcome x =
      (.ok (), { x with toWorld := { x.toWorld with journal } }) :=
  ⟨_, rfl⟩

theorem dispatch_of_answer_ok {s : Site} {x z : Exchange} {request : Option Request}
    {outcome : Outcome} (h : s.answer x = (.ok (request, outcome), z)) :
    ∃ y, s.dispatch x = (.ok (outcomeCode outcome), y) ∧ y.connection = z.connection ∧
      y.tree = z.tree := by
  obtain ⟨journal, hrecord⟩ := run_recordAccess s request outcome z
  refine ⟨{ z with toWorld := { z.toWorld with journal } }, ?_, rfl, rfl⟩
  have hattempt : attempt s.answer x = (.ok (.ok (request, outcome)), z) := by
    rw [run_attempt, h]
  rw [dispatch, run_bind_ok hattempt]
  exact run_bind_ok hrecord

theorem dispatch_of_answer_error {s : Site} {x z : Exchange} {e : Failure}
    (h : s.answer x = (.error e, z)) :
    ∃ y, s.dispatch x = (.error e, y) ∧ y.connection = z.connection ∧ y.tree = z.tree := by
  obtain ⟨journal, hrecord⟩ := run_recordAccess s none none z
  refine ⟨{ z with toWorld := { z.toWorld with journal } }, ?_, rfl, rfl⟩
  have hattempt : attempt s.answer x = (.ok (.error e), z) := by
    rw [run_attempt, h]
  rw [dispatch, run_bind_ok hattempt]
  exact run_bind_ok hrecord

end Site

end FileExchange
