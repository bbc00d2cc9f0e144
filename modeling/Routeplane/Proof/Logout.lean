import Routeplane.Storage.Accounts
import Routeplane.Proof.EntryRuns
import Routeplane.Proof.Registries
import Mathlib.Data.Set.Card

/-!
# A log-out revokes for good

A log-out takes effect when its call returns, or at the start after a crash that found its bytes in
the file. Each effect adds one to the account's session version and nothing else does, over calls,
writers and restarts. A token has the version that its login read, so it is good just as long as no
log-out takes effect, unless there are so many that the version comes round to it again.

* `bumped_of_plan`: what a call does to an account that is there.
* `version_of_run`: the version counts the effects.
* `effects_le`: no more log-outs take effect than are called.
* `logout_revokes`: tokens before and after a log-out.
* `cut_logout_revokes`: a log-out that does not return.
-/

namespace Routeplane.Console

open Storage FirstMatch

variable {json : Json (List ConsoleAccount)} {st : State Accounts AccountCall} {email : String}
  {account : ConsoleAccount} {first : Option Bytes} {es : List (Event AccountCall Unit)}

/-- A call of `bump_session_version` for the account. -/
def isLogout (email : String) : Event AccountCall Unit → Bool
  | .call _ (.bumpSessionVersion email') => email' = email
  | _ => false

/-- The task is in `bump_session_version` for the account. -/
def loggingOut (email : String) : Task Accounts AccountCall → Bool
  | .waiting (.bumpSessionVersion email') | .saving (.bumpSessionVersion email') _ => email' = email
  | _ => false

/-- A log-out of the account returns its new version. -/
def LogoutReturns (email : String) (st : State Accounts AccountCall) :
    Event AccountCall Unit → Prop
  | .resume id => ∃ next, Saved st id (.bumpSessionVersion email) next
  | _ => False

/-- The process starts again while a log-out of the account is in the file and has not returned. -/
def LogoutCut (email : String) (st : State Accounts AccountCall) : Event AccountCall Unit → Prop
  | .restart _ => ∃ id next, Saved st id (.bumpSessionVersion email) next
  | _ => False

abbrev LogoutCounts (email : String) (st : State Accounts AccountCall)
    (e : Event AccountCall Unit) : Prop :=
  LogoutReturns email st e ∨ LogoutCut email st e

/-- The account after some log-outs. -/
def bumpedBy (account : ConsoleAccount) (n : ℕ) : ConsoleAccount :=
  { account with sessionVersion := account.sessionVersion + UInt64.ofNat n }

theorem bumpedBy_zero (account : ConsoleAccount) : bumpedBy account 0 = account := by
  have hzero : account.sessionVersion + UInt64.ofNat 0 = account.sessionVersion := UInt64.add_zero _
  unfold bumpedBy
  rw [hzero]

theorem bumpedBy_bumpedBy (account : ConsoleAccount) (m n : ℕ) :
    bumpedBy (bumpedBy account m) n = bumpedBy account (m + n) := by
  unfold bumpedBy
  rw [UInt64.ofNat_add, UInt64.add_assoc]

/-- Fewer than all versions do not come round. -/
theorem bumpedBy_sessionVersion_ne {n : ℕ} (hpos : 0 < n) (hfew : n < 2 ^ 64) :
    (bumpedBy account n).sessionVersion ≠ account.sessionVersion := by
  intro heq
  have hzero : UInt64.ofNat n = 0 := by
    have hsum : account.sessionVersion + UInt64.ofNat n = account.sessionVersion := heq
    simpa using hsum
  have hnat := congrArg UInt64.toNat hzero
  rw [UInt64.toNat_ofNat_of_lt' hfew] at hnat
  exact absurd hnat (by simpa using Nat.ne_of_gt hpos)

/-! ## One effect -/

/-- An account that is there is not created again, and a log-out adds one to its version. -/
theorem bumped_of_plan {call : AccountCall} {s next : Accounts} {file accounts : List ConsoleAccount}
    (hkeeps : Keeps accounts s) (hfind : s.find email = some account) (hkey : call.email = email)
    (hplan : call.plan s = some (next, file)) :
    call = .bumpSessionVersion email ∧
      next.find email = some (bumpedBy account 1) := by
  cases call with
  | create email' passwordHash now =>
    have hemail : email' = email := hkey
    unfold AccountCall.plan at hplan
    dsimp only at hplan
    rw [hemail, hfind, Option.isSome_some, if_pos rfl] at hplan
    cases hplan
  | bumpSessionVersion email' =>
    have hemail : email' = email := hkey
    subst hemail
    refine ⟨rfl, ?_⟩
    obtain ⟨found, hfound, hnext⟩ := Option.bind_eq_some_iff.1 hplan
    have hfoundEmail : found.email = email' := by simpa using List.find?_some hfound
    have hfoundMem : found ∈ accounts :=
      hkeeps.sorted_perm.mem_iff.1 (List.mem_of_find?_eq_some hfound)
    have hsame : found = account :=
      Option.some_inj.1 (((hkeeps.find email' found).2 ⟨hfoundMem, hfoundEmail⟩).symm.trans hfind)
    obtain ⟨built, hbuilt, heq⟩ := Option.map_eq_some_iff.1 hnext
    obtain ⟨rfl, rfl⟩ := Prod.mk.inj heq
    have hnextKeeps := build_keeps (Fallible.of_toOption hbuilt)
    rw [hnextKeeps.find, ← hsame]
    exact ⟨mem_replaceFirst_self hfound, hfoundEmail⟩

/-- A call on an account that is there takes effect just when a log-out of it counts. -/
theorem counts_of_takes {call : AccountCall} {next : Accounts} {e : Event AccountCall Unit}
    (htakes : Takes (accountRegistry json) email st e call next)
    (hcall : call = .bumpSessionVersion email) : LogoutCounts email st e := by
  subst hcall
  obtain ⟨id, hs, -, rfl | ⟨boot, rfl⟩⟩ := htakes
  · exact .inl ⟨next, hs⟩
  · exact .inr ⟨id, next, hs⟩

theorem exists_takes_of_counts (json : Json (List ConsoleAccount)) {e : Event AccountCall Unit}
    (h : LogoutCounts email st e) :
    ∃ call next, Takes (accountRegistry json) email st e call next := by
  rcases h with hreturns | hcut
  · cases e with
    | resume id =>
      obtain ⟨next, hs⟩ := hreturns
      exact ⟨_, next, id, hs, rfl, .inl rfl⟩
    | call _ _ | lock _ | openTemp _ | write _ _ | rename _ | fail _ | disconnect _ | cancel _
      | restart _ => exact hreturns.elim
  · cases e with
    | restart boot =>
      obtain ⟨id, next, hs⟩ := hcut
      exact ⟨_, next, id, hs, rfl, .inr ⟨boot, rfl⟩⟩
    | call _ _ | lock _ | openTemp _ | write _ _ | rename _ | fail _ | disconnect _ | cancel _
      | resume _ => exact hcut.elim

/-! ## Runs -/

section

open Classical

/-- **The version counts the log-outs that take effect.** By induction on the events. -/
theorem version_of_run (hjson : json.Sound)
    (hinv : Inv (accountRegistry json) (fun s => ∃ accounts, Keeps accounts s) first st)
    (h : Stands (accountRegistry json) Accounts.find email (some account) st)
    (hes : ∀ e ∈ es, e.isCancel = false) :
    Stands (accountRegistry json) Accounts.find email
      (some (bumpedBy account
        (Run.count (step (accountRegistry json)) (LogoutCounts email) st es)))
      (Run.run (step (accountRegistry json)) st es) := by
  have hlaw := accounts_lawful hjson
  induction es generalizing st account with
  | nil =>
    rw [Run.count, bumpedBy_zero]
    exact h
  | cons e es ih =>
    have he := hes e List.mem_cons_self
    have hrest : ∀ e' ∈ es, e'.isCancel = false := fun e' he' => hes e' (List.mem_cons_of_mem _ he')
    have hinv' := hinv.step hlaw he
    rcases h.step hlaw hinv he with ⟨call, next, live, file, htakes, hlive, hplan, hstands⟩ |
        ⟨hnone, hstands⟩
    · obtain ⟨accounts, hkeeps⟩ := hinv.good live hlive
      have hkey : call.email = email := by
        obtain ⟨id, -, hkey, -⟩ := htakes
        exact hkey
      obtain ⟨hcall, hnext⟩ := bumped_of_plan hkeeps (h.live live hlive) hkey hplan
      rw [hnext] at hstands
      have hrun := ih hinv' hstands hrest
      rw [bumpedBy_bumpedBy] at hrun
      rw [Run.count, if_pos (counts_of_takes htakes hcall)]
      exact hrun
    · have hcount : ¬LogoutCounts email st e := by
        intro hcounts
        obtain ⟨call, next, htakes⟩ := exists_takes_of_counts json hcounts
        exact hnone call next htakes
      rw [Run.count, if_neg hcount, Nat.zero_add]
      exact ih hinv' hstands hrest

/-! ## No more effects than calls -/

def underWay (email : String) (tasks : ℕ → Task Accounts AccountCall) : Set ℕ :=
  { id | loggingOut email (tasks id) = true }

theorem underWay_update_subset {tasks : ℕ → Task Accounts AccountCall} {id : ℕ}
    {task : Task Accounts AccountCall}
    (h : loggingOut email task = true → loggingOut email (tasks id) = true) :
    underWay email (Function.update tasks id task) ⊆ underWay email tasks := by
  intro other hother
  have hupdate : loggingOut email (Function.update tasks id task other) = true := hother
  by_cases heq : other = id
  · subst heq
    rw [Function.update_self] at hupdate
    exact h hupdate
  · rw [Function.update_of_ne heq] at hupdate
    exact hupdate

theorem underWay_update_subset_insert (tasks : ℕ → Task Accounts AccountCall) (id : ℕ)
    (task : Task Accounts AccountCall) :
    underWay email (Function.update tasks id task) ⊆ insert id (underWay email tasks) := by
  intro other hother
  have hupdate : loggingOut email (Function.update tasks id task other) = true := hother
  by_cases heq : other = id
  · exact Set.mem_insert_iff.2 (.inl heq)
  · rw [Function.update_of_ne heq] at hupdate
    exact Set.mem_insert_iff.2 (.inr hupdate)

/-- Only a call of a log-out adds one. -/
theorem underWay_step (reg : Registry Accounts (List ConsoleAccount) String AccountCall Unit)
    (st : State Accounts AccountCall) (e : Event AccountCall Unit) :
    underWay email (step reg st e).tasks ⊆ underWay email st.tasks ∨
      isLogout email e = true ∧
        ∃ id, underWay email (step reg st e).tasks ⊆ insert id (underWay email st.tasks) := by
  rcases tasks_step reg st e with heq | ⟨id, call, rfl, heq⟩ | ⟨id, call, next, htask, heq⟩ |
      ⟨id, task, htask, heq⟩ | heq
  · rw [heq]
    exact .inl subset_rfl
  · rw [heq]
    by_cases hlogout : isLogout email (.call id call) = true
    · exact .inr ⟨hlogout, id, underWay_update_subset_insert _ _ _⟩
    · refine .inl (underWay_update_subset fun hwaiting => absurd ?_ hlogout)
      cases call with
      | create _ _ _ => cases hwaiting
      | bumpSessionVersion email' => exact hwaiting
  · rw [heq]
    refine .inl (underWay_update_subset fun hsaving => ?_)
    rw [htask]
    cases call with
    | create _ _ _ => cases hsaving
    | bumpSessionVersion email' => exact hsaving
  · rw [heq]
    refine .inl (underWay_update_subset fun hended => ?_)
    rcases htask with rfl | ⟨saved, rfl⟩ <;> cases hended
  · rw [heq]
    refine .inl fun id hid => ?_
    cases hid

theorem underWay_finite_step {reg : Registry Accounts (List ConsoleAccount) String AccountCall Unit}
    {e : Event AccountCall Unit} (h : (underWay email st.tasks).Finite) :
    (underWay email (step reg st e).tasks).Finite := by
  rcases underWay_step reg st e with hsub | ⟨-, id, hsub⟩
  · exact h.subset hsub
  · exact (h.insert id).subset hsub

theorem mem_underWay {id : ℕ} {next : Accounts}
    (h : Saved st id (.bumpSessionVersion email) next) : id ∈ underWay email st.tasks := by
  show loggingOut email (st.tasks id) = true
  rw [h.task]
  exact decide_eq_true rfl

/-- An effect ends a log-out that is under way. -/
theorem underWay_of_counts (reg : Registry Accounts (List ConsoleAccount) String AccountCall Unit)
    {e : Event AccountCall Unit} (h : LogoutCounts email st e)
    (hfinite : (underWay email st.tasks).Finite) :
    (underWay email (step reg st e).tasks).ncard + 1 ≤ (underWay email st.tasks).ncard := by
  have hless : ∃ id ∈ underWay email st.tasks,
      underWay email (step reg st e).tasks ⊆ underWay email st.tasks \ {id} := by
    rcases h with hreturns | hcut
    · cases e with
      | resume id =>
        obtain ⟨next, hs⟩ := hreturns
        refine ⟨id, mem_underWay hs, ?_⟩
        have htasks : (step reg st (.resume id)).tasks =
            Function.update st.tasks id (.answered true) := congrArg State.tasks hs.resume_eq
        rw [htasks]
        intro other hother
        refine ⟨underWay_update_subset (fun hanswered => by cases hanswered) hother, ?_⟩
        rintro rfl
        have hself : loggingOut email (Function.update st.tasks other (.answered true) other) = true :=
          hother
        rw [Function.update_self] at hself
        cases hself
      | call _ _ | lock _ | openTemp _ | write _ _ | rename _ | fail _ | disconnect _ | cancel _
        | restart _ => exact hreturns.elim
    · cases e with
      | restart boot =>
        obtain ⟨id, next, hs⟩ := hcut
        exact ⟨id, mem_underWay hs, fun other hother => by cases hother⟩
      | call _ _ | lock _ | openTemp _ | write _ _ | rename _ | fail _ | disconnect _ | cancel _
        | resume _ => exact hcut.elim
  obtain ⟨id, hid, hsub⟩ := hless
  rw [← Set.ncard_sdiff_singleton_add_one hid hfinite]
  exact Nat.succ_le_succ (Set.ncard_le_ncard hsub (hfinite.subset Set.sdiff_subset))

/-- The number of log-outs under way pays for the effects. -/
noncomputable def underWayCount (email : String) (st : State Accounts AccountCall) : ℕ :=
  (underWay email st.tasks).ncard

/-- **No more log-outs take effect than are called.** -/
theorem effects_le (email : String) (json : Json (List ConsoleAccount)) (target temp : Option Bytes)
    (es : List (Event AccountCall Unit)) :
    Run.count (step (accountRegistry json)) (LogoutCounts email)
      (start (accountRegistry json) () target temp) es ≤ es.countP (isLogout email) := by
  let first := start (accountRegistry json) () target temp
  have hnone : underWay email first.tasks = ∅ :=
    Set.eq_empty_of_forall_notMem fun id hid => by cases hid
  have hfinite : (underWay email first.tasks).Finite := by
    rw [hnone]
    exact Set.finite_empty
  have hzero : underWayCount email first = 0 := by
    rw [underWayCount, hnone, Set.ncard_empty]
  have hpaid : underWayCount email (Run.run (step (accountRegistry json)) first es) +
      Run.count (step (accountRegistry json)) (LogoutCounts email) first es ≤
        underWayCount email first + es.countP (isLogout email) := by
    refine Run.add_count_le (I := fun st => (underWay email st.tasks).Finite)
      (C := fun _ _ => True) (fun _ _ h _ => underWay_finite_step h) ?_ hfinite Run.Steps.true
    intro st e h _
    unfold underWayCount
    split
    · have hless := underWay_of_counts (accountRegistry json) ‹_› h
      omega
    · rcases underWay_step (accountRegistry json) st e with hsub | ⟨hpays, id, hsub⟩
      · have hle := Set.ncard_le_ncard hsub h
        omega
      · have hle := Set.ncard_le_ncard hsub (h.insert id)
        have hinsert := Set.ncard_insert_le id (underWay email st.tasks)
        rw [if_pos hpays]
        omega
  rw [hzero, Nat.zero_add] at hpaid
  exact le_trans (Nat.le_add_left _ _) hpaid

end

/-! ## Tokens -/

theorem issue_ok {jwt : Jwt} {timestamp : ℤ} {sv : UInt64} {token : String}
    (h : issue jwt timestamp email sv = .ok token) :
    jwt.encode ⟨email, (max timestamp 0).toNat, expiry (max timestamp 0).toNat, sv⟩ =
      some token := by
  unfold issue at h
  dsimp only at h
  cases henc : jwt.encode ⟨email, (max timestamp 0).toNat, expiry (max timestamp 0).toNat, sv⟩ with
  | none =>
    rw [henc] at h
    cases h
  | some token' =>
    rw [henc] at h
    rw [Except.ok.inj h]

/-- A token of an older version is not accepted. -/
theorem verify_stale {jwt : Jwt} (hjwt : jwt.Exact) {accounts : Accounts} {claims : ConsoleClaims}
    {token : String} (hencode : jwt.encode claims = some token)
    (hfind : accounts.find claims.sub = some account) (hne : account.sessionVersion ≠ claims.sv)
    (now : ℕ) : verify jwt accounts now token = none := by
  unfold verify
  cases hdecode : jwt.decode now token with
  | none => rfl
  | some claims' =>
    rw [hjwt.own claims token now claims' hencode hdecode, Option.bind_some, hfind,
      Option.bind_some, if_pos hne]

theorem verify_current {jwt : Jwt} (hjwt : jwt.Exact) {accounts : Accounts} {claims : ConsoleClaims}
    {token : String} (hencode : jwt.encode claims = some token)
    (hfind : accounts.find claims.sub = some account) (heq : account.sessionVersion = claims.sv)
    {now : ℕ} (hnow : now ≤ claims.exp) :
    verify jwt accounts now token = some ⟨account.email, account.createdAt⟩ := by
  unfold verify
  rw [hjwt.unexpired claims token now hencode hnow, Option.bind_some, hfind, Option.bind_some,
    if_neg (not_not.2 heq)]

/-- **A log-out revokes for good.** A token is minted from the version that a login reads after the
events `before`, and presented after the events `after`. -/
theorem logout_revokes (email : String) (hjson : json.Sound) {jwt : Jwt} (hjwt : jwt.Exact)
    (target temp : Option Bytes) (before after : List (Event AccountCall Unit))
    (hcancel : ∀ e ∈ before ++ after, e.isCancel = false)
    (hfew : (before ++ after).countP (isLogout email) < 2 ^ 64) {read again : Accounts}
    (hread : (reached (accountRegistry json) () target temp before).live = some read)
    (hfind : read.find email = some account) {timestamp : ℤ} {token : String}
    (hissue : issue jwt timestamp account.email account.sessionVersion = .ok token)
    (hlive : (reached (accountRegistry json) () target temp (before ++ after)).live = some again)
    (now : ℕ) :
    (Run.Occurs (step (accountRegistry json)) (LogoutReturns email)
        (reached (accountRegistry json) () target temp before) after →
      verify jwt again now token = none) ∧
    (¬Run.Occurs (step (accountRegistry json)) (LogoutReturns email)
        (reached (accountRegistry json) () target temp before) after →
      ¬Run.Occurs (step (accountRegistry json)) (LogoutCut email)
        (reached (accountRegistry json) () target temp before) after →
      now ≤ expiry (max timestamp 0).toNat →
      verify jwt again now token = some ⟨account.email, account.createdAt⟩) := by
  classical
  have hlaw := accounts_lawful hjson
  have hbefore : ∀ e ∈ before, e.isCancel = false :=
    fun e he => hcancel e (List.mem_append_left _ he)
  have hinv := (Inv.start hlaw () target temp).run hlaw hbefore
  have hstart : ∃ a, Stands (accountRegistry json) Accounts.find email a
      (start (accountRegistry json) () target temp) := Stands.start hlaw () target temp
  obtain ⟨a, hstands⟩ := Stands.exists_of_run hlaw (Inv.start hlaw () target temp) hstart hbefore
  have hentry : a = some account := (hstands.live read hread).symm.trans hfind
  have hemail : account.email = email := by
    obtain ⟨accounts, hkeeps⟩ := hinv.good read hread
    exact ((hkeeps.find email account).1 hfind).2
  -- the version read, and the effects since
  have hrun := version_of_run hjson hinv (hentry ▸ hstands)
    fun e he => hcancel e (List.mem_append_right _ he)
  generalize hn : Run.count (step (accountRegistry json)) (LogoutCounts email)
    (Run.run (step (accountRegistry json)) (start (accountRegistry json) () target temp) before)
    after = n at hrun
  have hagain : again.find account.email = some (bumpedBy account n) := by
    rw [hemail]
    unfold reached at hlive
    rw [Run.run_append] at hlive
    exact hrun.live again hlive
  have hfewer : n < 2 ^ 64 := by
    have hle := effects_le email json target temp (before ++ after)
    rw [Run.count_append, hn] at hle
    omega
  have hencode := issue_ok hissue
  refine ⟨?_, ?_⟩
  · intro hreturned
    have hpos : 0 < n := by
      rw [← hn]
      exact Run.occurs_iff_count_pos.1 (hreturned.mono fun _ _ h => .inl h)
    exact verify_stale hjwt hencode hagain (bumpedBy_sessionVersion_ne hpos hfewer) now
  · intro hreturned hcut hnow
    have hzero : n = 0 := by
      by_contra hne
      have hoccurs : Run.Occurs (step (accountRegistry json)) (LogoutCounts email) _ after :=
        Run.occurs_iff_count_pos.2 (hn ▸ Nat.pos_of_ne_zero hne)
      exact hoccurs.or.elim hreturned hcut
    rw [hzero, bumpedBy_zero] at hagain
    exact verify_current hjwt hencode hagain rfl hnow

/-! ### Runs of one account -/

theorem occurs_of_saved {target temp : Option Bytes} {before after : List (Event AccountCall Unit)}
    {id : ℕ} {next : Accounts}
    (h : Saved (reached (accountRegistry json) () target temp (before ++ after)) id
      (.bumpSessionVersion email) next) :
    Run.Occurs (step (accountRegistry json)) (LogoutReturns email)
      (reached (accountRegistry json) () target temp before) (after ++ [.resume id]) := by
  unfold reached at h ⊢
  rw [Run.run_append] at h
  exact Run.occurs_append.2 (.inr (.inl ⟨next, h⟩))

/-- A restart cuts nothing when no call holds the lock. -/
theorem not_cut_of_unlocked (hjson : json.Sound) {target temp : Option Bytes}
    {before : List (Event AccountCall Unit)} (hcancel : ∀ e ∈ before, e.isCancel = false)
    (hlock : (reached (accountRegistry json) () target temp before).lock = none) :
    ¬Run.Occurs (step (accountRegistry json)) (LogoutCut email)
      (reached (accountRegistry json) () target temp before) [.restart ()] := by
  rintro (⟨id, next, hsaved⟩ | hnone)
  · have hlaw := accounts_lawful hjson
    have hinv := (Inv.start hlaw () target temp).run hlaw hcancel
    rcases hinv.idle_or_held id with ⟨-, hidle⟩ | ⟨call, live, next', file, writer, hheld⟩
    · exact hidle _ _ hsaved.task
    · have hsome := hheld.lock
      unfold reached at hlock
      rw [hlock] at hsome
      cases hsome
  · exact hnone

def sessionAccount (version : UInt64) : ConsoleAccount :=
  { signedUp "a@example.com" with sessionVersion := version }

def sessionText (version : String) : Bytes :=
  asciiBytes ("\x7b\n  \"accounts\": [\n    \x7b\n      \"email\": \"a@example.com\",\n" ++
    "      \"password_hash\": \"$argon2id$v=19\",\n      \"created_at\": " ++
    "\"2026-01-01T00:00:00+00:00\",\n      \"session_version\": " ++ version ++
    "\n    \x7d\n  ]\n\x7d")

def sessionRows : List (List ConsoleAccount × Bytes) :=
  [([sessionAccount 0], sessionText "0"), ([sessionAccount 1], sessionText "1")]

def sessionTexts : Json (List ConsoleAccount) := .table sessionRows

def snapshotAt (version : UInt64) : Accounts := ⟨[("a@example.com", sessionAccount version)]⟩

/-- The account is there. -/
def signedUpRun : List (Event AccountCall Unit) := signUpSaved ++ [.resume 0]

/-- A log-out whose bytes are in the file. -/
def logoutSaved : List (Event AccountCall Unit) :=
  [.call 1 (.bumpSessionVersion "a@example.com"), .lock 1, .openTemp 1, .write 1 1000, .rename 1]

/-- It returns. -/
def logoutReturned : List (Event AccountCall Unit) := logoutSaved ++ [.resume 1]

def afterRun (es : List (Event AccountCall Unit)) : State Accounts AccountCall :=
  reached (accountRegistry sessionTexts) () none none es

/-- What the runs below come to, evaluated at once on the rows spelled out as bytes. -/
theorem exists_sessionRows : ∃ rows, sessionRows = rows ∧
    (∀ row ∈ rows, row.2 ≠ [0]) ∧ (rows.map (·.2)).Nodup ∧
    (reached (accountRegistry (.table rows)) () none none signedUpRun).live = some (snapshotAt 0) ∧
    (reached (accountRegistry (.table rows)) () none none signedUpRun).lock = none ∧
    (reached (accountRegistry (.table rows)) () none none (signedUpRun ++ [.restart ()])).live =
      some (snapshotAt 0) ∧
    (reached (accountRegistry (.table rows)) () none none (signedUpRun ++ logoutSaved)).tasks 1 =
      .saving (.bumpSessionVersion "a@example.com") (snapshotAt 1) ∧
    (reached (accountRegistry (.table rows)) () none none (signedUpRun ++ logoutSaved)).writers 1 =
      some (.finished true) ∧
    (reached (accountRegistry (.table rows)) () none none (signedUpRun ++ logoutReturned)).live =
      some (snapshotAt 1) ∧
    (reached (accountRegistry (.table rows)) () none none
      (signedUpRun ++ (logoutSaved ++ [.restart ()]))).live = some (snapshotAt 1) := by
  refine ⟨?_, ?_, ?_⟩
  rotate_left
  · simp -implicitDefEqProofs only [sessionRows, sessionText, asciiBytes, String.toList_append,
      -String.reduceAppend]
    rw [String.toList_ofList, String.toList_ofList, String.toList_ofList, String.toList_ofList,
      String.toList_ofList, String.toList_ofList]
  · decide +kernel
theorem session_runs :
    (∀ row ∈ sessionRows, row.2 ≠ [0]) ∧ (sessionRows.map (·.2)).Nodup ∧
    (afterRun signedUpRun).live = some (snapshotAt 0) ∧ (afterRun signedUpRun).lock = none ∧
    (afterRun (signedUpRun ++ [.restart ()])).live = some (snapshotAt 0) ∧
    (afterRun (signedUpRun ++ logoutSaved)).tasks 1 =
      .saving (.bumpSessionVersion "a@example.com") (snapshotAt 1) ∧
    (afterRun (signedUpRun ++ logoutSaved)).writers 1 = some (.finished true) ∧
    (afterRun (signedUpRun ++ logoutReturned)).live = some (snapshotAt 1) ∧
    (afterRun (signedUpRun ++ (logoutSaved ++ [.restart ()]))).live = some (snapshotAt 1) := by
  obtain ⟨rows, hrows, hruns⟩ := exists_sessionRows
  simp -implicitDefEqProofs only [afterRun, sessionTexts, hrows]
  exact hruns

theorem sessionTexts_sound : sessionTexts.Sound :=
  Json.table_sound session_runs.1 session_runs.2.1

def sessionClaims : ConsoleClaims := ⟨"a@example.com", 1767225600, 1767268800, 0⟩

/-- A signer of one token. -/
def oneToken : Jwt where
  encode claims := if claims = sessionClaims then some "header.claims.signature" else none
  decode now token :=
    if token = "header.claims.signature" ∧ now ≤ sessionClaims.exp + 60 then some sessionClaims
    else none

theorem oneToken_exact : oneToken.Exact where
  own := by
    intro claims token now claims' hencode hdecode
    obtain ⟨hclaims, -⟩ := Option.ite_none_right_eq_some.1 hencode
    obtain ⟨-, hclaims'⟩ := Option.ite_none_right_eq_some.1 hdecode
    rw [hclaims, ← Option.some_inj.1 hclaims']
  unexpired := by
    intro claims token now hencode hnow
    obtain ⟨rfl, htoken⟩ := Option.ite_none_right_eq_some.1 hencode
    rw [← Option.some_inj.1 htoken]
    exact if_pos ⟨rfl, le_trans hnow (Nat.le_add_right _ _)⟩

theorem issue_oneToken : issue oneToken 1767225600 (sessionAccount 0).email
    (sessionAccount 0).sessionVersion = .ok "header.claims.signature" := rfl

theorem find_snapshotAt_zero :
    (snapshotAt 0).find "a@example.com" = some (sessionAccount 0) := rfl

/-- The token dies with the log-out, and survives a restart. -/
theorem logout_revokes_one :
    verify oneToken (snapshotAt 1) 1767225700 "header.claims.signature" = none ∧
    verify oneToken (snapshotAt 0) 1767225700 "header.claims.signature" =
      some ⟨"a@example.com", some "2026-01-01T00:00:00+00:00"⟩ := by
  obtain ⟨-, -, hread, hlock, hkept, htask, hwritten, hrevoked, -⟩ := session_runs
  constructor
  · have hreturned := (logout_revokes "a@example.com" sessionTexts_sound oneToken_exact none none
      signedUpRun logoutReturned (by decide) (by decide) hread
      find_snapshotAt_zero issue_oneToken hrevoked 1767225700).1
    have hsaved : Saved (afterRun (signedUpRun ++ logoutSaved)) 1
        (.bumpSessionVersion "a@example.com") (snapshotAt 1) := ⟨htask, hwritten⟩
    exact hreturned (occurs_of_saved hsaved)
  · have hstands := (logout_revokes "a@example.com" sessionTexts_sound oneToken_exact none none
      signedUpRun [.restart ()] (by decide) (by decide) hread
      find_snapshotAt_zero issue_oneToken hkept 1767225700).2
    exact hstands (fun h => h.elim id id)
      (not_cut_of_unlocked sessionTexts_sound (by decide) hlock) (by decide)

/-- A restart after the rename of a log-out that never returned: the token is unexpired, and no
log-out returned since its version was read, but it is not accepted. -/
theorem cut_logout_revokes :
    (afterRun signedUpRun).live = some (snapshotAt 0) ∧
    (snapshotAt 0).find "a@example.com" = some (sessionAccount 0) ∧
    issue oneToken 1767225600 "a@example.com" (sessionAccount 0).sessionVersion =
      .ok "header.claims.signature" ∧
    ¬Run.Occurs (step (accountRegistry sessionTexts)) (LogoutReturns "a@example.com")
      (afterRun signedUpRun) (logoutSaved ++ [.restart ()]) ∧
    1767225700 ≤ expiry 1767225600 ∧
    (afterRun (signedUpRun ++ (logoutSaved ++ [.restart ()]))).live = some (snapshotAt 1) ∧
    verify oneToken (snapshotAt 1) 1767225700 "header.claims.signature" = none := by
  refine ⟨session_runs.2.2.1, find_snapshotAt_zero, issue_oneToken, ?_, by decide,
    session_runs.2.2.2.2.2.2.2.2, rfl⟩
  -- none of these events is one at which a call goes on
  simp only [logoutSaved, List.cons_append, List.nil_append, Run.Occurs, LogoutReturns, or_self,
    not_false_eq_true]

end Routeplane.Console
