import AirDrive.World

set_option relaxedAutoImplicit false
set_option autoImplicit false

/-!
# The retries of the HTTP client

Every request of the daemon goes through `with_retry`, which sends it again after a transient
failure. Here the fate of the connection is that of single attempts: an attempt goes well, or it
fails before it takes effect, or it takes effect and its answer is lost.

## Main definitions

* `AirDrive.Http.isTransient` — which failures are retried.
* `AirDrive.Http.withRetry` — a request with its retries.
* `AirDrive.Http.attempts` — what happened to the attempts that were made.
* `AirDrive.http` — the calls of the daemon, with the retries of requests.

## Main results

* `AirDrive.Http.retry_keeps`, `AirDrive.Http.retry_refused` — what every attempt keeps is kept, and
  a refused request changes nothing.
* `AirDrive.Http.retry_unlost`, `AirDrive.Http.retry_once` — a request whose answers are not lost,
  and one that takes effect at most once.
-/

namespace AirDrive

open Effect

namespace Http

/-- `MAX_ATTEMPTS`. -/
def maxAttempts : ℕ := 6

/-- The text occurs in a body. -/
def names (reason body : String) : Bool := decide (reason.toList <:+: body.toList)

/-- `is_transient`. -/
def isTransient : Error → Bool
  | .network _ => true
  | .driveHttp status body =>
    status = 429 || (500 ≤ status && status ≤ 504) ||
      (status = 403 && (names "rateLimitExceeded" body || names "userRateLimitExceeded" body))
  | _ => false

section Retry

variable {α : Type} (md5 : List UInt8 → String) (c : DriveCall α)

/-- The loop of `with_retry`, with a number of attempts left. -/
def retry : ℕ → Remote → Except Error α × Remote
  | 0, r => (.error (.drive "retry loop exhausted (unreachable)"), r)
  | n + 1, r =>
    match r.send md5 c with
    | (.ok a, r') => (.ok a, r')
    | (.error e, r') => if isTransient e = true ∧ 0 < n then retry n r' else (.error e, r')

/-- `with_retry`. -/
def withRetry (r : Remote) : Except Error α × Remote := retry md5 c maxAttempts r

/-- What happens to the attempts of the loop. -/
def attempts : ℕ → Remote → List (Option Fault)
  | 0, _ => []
  | n + 1, r =>
    r.faults.headD none ::
      match r.send md5 c with
      | (.ok _, _) => []
      | (.error e, r') => if isTransient e = true ∧ 0 < n then attempts n r' else []

end Retry

/-- The attempt took effect. -/
def effective : Option Fault → Bool
  | some (.failed _) => false
  | _ => true

/-- The attempt took effect and its answer was lost. -/
def isLost : Option Fault → Bool
  | some (.lost _) => true
  | _ => false

section Outcomes

variable {α : Type} {md5 : List UInt8 → String} {c : DriveCall α} {n : ℕ} {r : Remote}

/-- What each attempt keeps is kept by the request. -/
lemma retry_keeps {P : Drive → Prop} (hrun : ∀ d, P d → P (c.run md5 d).2) (hr : P r.drive) :
    P (retry md5 c n r).2.drive := by
  induction n generalizing r with
  | zero => exact hr
  | succ n ih =>
    have hsent : P (r.send md5 c).2.drive := by
      rcases @Remote.send_drive _ md5 c r with hsame | hrun'
      · rw [hsame]
        exact hr
      · rw [hrun']
        exact hrun _ hr
    simp only [retry]
    split
    · next a r' hsend => rwa [hsend] at hsent
    · next e r' hsend =>
      rw [hsend] at hsent
      split_ifs
      · exact ih hsent
      · exact hsent

/-- The answer of a request that changes nothing is right. -/
lemma retry_read (hread : ∀ d, (c.run md5 d).2 = d) :
    (retry md5 c n r).2.drive = r.drive ∧
      ∀ a, (retry md5 c n r).1 = .ok a → (c.run md5 r.drive).1 = .ok a := by
  induction n generalizing r with
  | zero => exact ⟨rfl, nofun⟩
  | succ n ih =>
    have hsent : (r.send md5 c).2.drive = r.drive := by
      rcases @Remote.send_drive _ md5 c r with hsame | hrun
      · exact hsame
      · rw [hrun, hread]
    simp only [retry]
    split
    · next a r' hsend =>
      rw [hsend] at hsent
      refine ⟨hsent, fun a' ha' => ?_⟩
      obtain rfl := Except.ok.inj ha'
      exact Remote.send_ok (by rw [hsend])
    · next e r' hsend =>
      rw [hsend] at hsent
      split_ifs
      · have hrest := ih (r := r')
        rw [hsent] at hrest
        exact hrest
      · exact ⟨hsent, nofun⟩

/-- An answer is the answer of an attempt that took effect. -/
lemma retry_ok {P : Drive → Prop} (hrun : ∀ d, P d → P (c.run md5 d).2) (hr : P r.drive) {a : α}
    (h : (retry md5 c n r).1 = .ok a) :
    ∃ d, P d ∧ (c.run md5 d).1 = .ok a ∧ (retry md5 c n r).2.drive = (c.run md5 d).2 := by
  induction n generalizing r with
  | zero => cases h
  | succ n ih =>
    simp only [retry] at h ⊢
    cases hsend : r.send md5 c with
    | mk x r' =>
      rw [hsend] at h
      cases x with
      | ok a' =>
        obtain rfl := Except.ok.inj h
        have hdrive := @Remote.send_ok_drive _ md5 c r a' (by rw [hsend])
        rw [hsend] at hdrive
        exact ⟨r.drive, hr, Remote.send_ok (by rw [hsend]), hdrive⟩
      | error e =>
        have hsent : P r'.drive := by
          have hdrive := @Remote.send_drive _ md5 c r
          rw [hsend] at hdrive
          rcases hdrive with hsame | hran
          · exact hsame ▸ hr
          · exact hran ▸ hrun _ hr
        simp only at h ⊢
        split_ifs at h ⊢
        exact ih hsent h

/-- A request that the service refuses fails and changes nothing. -/
lemma retry_refused {e : Error} (hrefused : c.run md5 r.drive = (.error e, r.drive)) :
    (∃ e, (retry md5 c n r).1 = .error e) ∧ (retry md5 c n r).2.drive = r.drive := by
  have hrun : ∀ d, d = r.drive → (c.run md5 d).2 = r.drive := fun d hd => by rw [hd, hrefused]
  refine ⟨?_, retry_keeps (P := fun d => d = r.drive) hrun rfl⟩
  cases hanswer : (retry md5 c n r).1 with
  | error e => exact ⟨e, rfl⟩
  | ok a =>
    obtain ⟨d, rfl, hok, -⟩ := retry_ok (P := fun d => d = r.drive) hrun rfl hanswer
    rw [hrefused] at hok
    cases hok

/-- **A request whose answers all arrive** has taken effect exactly when it succeeds, if it changes
nothing when the service refuses it. -/
lemma retry_unlost (hrefused : ∀ d e, (c.run md5 d).1 = .error e → (c.run md5 d).2 = d)
    (hunlost : ∀ x ∈ attempts md5 c n r, isLost x = false) :
    (∃ a, (retry md5 c n r).1 = .ok a ∧ (c.run md5 r.drive).1 = .ok a ∧
        (retry md5 c n r).2.drive = (c.run md5 r.drive).2) ∨
      ((∃ e, (retry md5 c n r).1 = .error e) ∧ (retry md5 c n r).2.drive = r.drive) := by
  induction n generalizing r with
  | zero => exact .inr ⟨⟨_, rfl⟩, rfl⟩
  | succ n ih =>
    simp only [retry, attempts, List.mem_cons, forall_eq_or_imp] at hunlost ⊢
    obtain ⟨hhead, hrest⟩ := hunlost
    cases hsend : r.send md5 c with
    | mk x r' =>
      rw [hsend] at hrest
      cases x with
      | ok a =>
        refine .inl ⟨a, rfl, Remote.send_ok (by rw [hsend]), ?_⟩
        have hdrive := @Remote.send_ok_drive _ md5 c r a (by rw [hsend])
        rw [hsend] at hdrive
        exact hdrive
      | error e =>
        -- an attempt that is not lost and has no answer has changed nothing
        have hsame : r'.drive = r.drive := by
          obtain ⟨d, faults⟩ := r
          match faults with
          | [] =>
            obtain ⟨herror, rfl⟩ := Prod.mk.inj hsend
            exact hrefused d e herror
          | none :: rest =>
            obtain ⟨herror, rfl⟩ := Prod.mk.inj hsend
            exact hrefused d e herror
          | some (.failed e') :: rest =>
            obtain ⟨-, rfl⟩ := Prod.mk.inj hsend
            rfl
          | some (.lost e') :: rest => cases hhead
        simp only at hrest ⊢
        split_ifs at hrest ⊢
        · have hih := ih hrest
          rwa [hsame] at hih
        · exact .inr ⟨⟨e, rfl⟩, hsame⟩

/-- An attempt that takes effect. -/
lemma send_effective (h : effective (r.faults.headD none) = true) :
    (r.send md5 c).2.drive = (c.run md5 r.drive).2 := by
  obtain ⟨d, faults⟩ := r
  match faults with
  | [] => rfl
  | none :: rest => rfl
  | some (.lost e) :: rest => rfl
  | some (.failed e) :: rest => cases h

/-- An attempt that takes no effect. -/
lemma send_ineffective (h : effective (r.faults.headD none) = false) :
    (r.send md5 c).2.drive = r.drive ∧ ∃ e, (r.send md5 c).1 = .error e := by
  obtain ⟨d, faults⟩ := r
  match faults with
  | [] => cases h
  | none :: rest => cases h
  | some (.lost e) :: rest => cases h
  | some (.failed e) :: rest => exact ⟨rfl, e, rfl⟩

/-- A request none of whose attempts takes effect. -/
lemma retry_never (hnever : (attempts md5 c n r).countP effective = 0) :
    (retry md5 c n r).2.drive = r.drive ∧ ∀ a, (retry md5 c n r).1 ≠ .ok a := by
  induction n generalizing r with
  | zero => exact ⟨rfl, nofun⟩
  | succ n ih =>
    simp only [attempts, List.countP_cons] at hnever
    obtain ⟨hrest, hhead⟩ := Nat.add_eq_zero_iff.mp hnever
    have hineffective : effective (r.faults.headD none) = false := by simpa using hhead
    obtain ⟨hdrive, e, he⟩ := @send_ineffective _ md5 c r hineffective
    simp only [retry]
    cases hsend : r.send md5 c with
    | mk x r' =>
      rw [hsend] at hdrive he hrest
      obtain rfl : x = .error e := he
      simp only at hrest hdrive ⊢
      split_ifs at hrest ⊢
      · rw [← hdrive]
        exact ih hrest
      · exact ⟨hdrive, nofun⟩

/-- **A request that takes effect at most once**. -/
lemma retry_once (honce : (attempts md5 c n r).countP effective ≤ 1) :
    ((retry md5 c n r).2.drive = r.drive ∨ (retry md5 c n r).2.drive = (c.run md5 r.drive).2) ∧
      ∀ a, (retry md5 c n r).1 = .ok a → (c.run md5 r.drive).1 = .ok a ∧
        (retry md5 c n r).2.drive = (c.run md5 r.drive).2 := by
  induction n generalizing r with
  | zero => exact ⟨.inl rfl, nofun⟩
  | succ n ih =>
    simp only [attempts, List.countP_cons] at honce
    simp only [retry]
    by_cases heffective : effective (r.faults.headD none) = true
    · -- no later attempt takes effect
      have hdrive := @send_effective _ md5 c r heffective
      rw [if_pos heffective] at honce
      have hnever := Nat.le_zero.mp (Nat.le_of_succ_le_succ honce)
      cases hsend : r.send md5 c with
      | mk x r' =>
        rw [hsend] at hdrive hnever
        cases x with
        | ok a =>
          refine ⟨.inr hdrive, fun a' ha' => ?_⟩
          obtain rfl := Except.ok.inj ha'
          exact ⟨Remote.send_ok (by rw [hsend]), hdrive⟩
        | error e =>
          simp only at hnever hdrive ⊢
          split_ifs at hnever ⊢
          · obtain ⟨hrest, hnone⟩ := retry_never hnever
            exact ⟨.inr (hrest.trans hdrive), fun a ha => absurd ha (hnone a)⟩
          · exact ⟨.inr hdrive, nofun⟩
    · obtain ⟨hdrive, e, he⟩ := @send_ineffective _ md5 c r (by simpa using heffective)
      rw [if_neg heffective, Nat.add_zero] at honce
      cases hsend : r.send md5 c with
      | mk x r' =>
        rw [hsend] at hdrive he honce
        obtain rfl : x = .error e := he
        simp only at honce hdrive ⊢
        split_ifs at honce ⊢
        · rw [← hdrive]
          exact ih honce
        · exact ⟨.inl hdrive, nofun⟩

end Outcomes

end Http

/-- The meaning of the calls, with the retries of requests. -/
def http (env : Env) : Handler Call World
  | _, .drive c, w =>
    ((Http.withRetry env.md5 c w.remote).1,
      { w with remote := (Http.withRetry env.md5 c w.remote).2 })
  | β, c, w => handle env β c w

@[simp] lemma http_db {β : Type} (env : Env) (c : DbCall β) (w : World) :
    http env β (.db c) w = handle env β (.db c) w := rfl

end AirDrive
