import Routeplane.Storage.Persist

/-!
# Changes of a registry are atomic and durable

No run in which the future of a call is dropped is looked at here: the handlers spawn the calls. The
lock then covers the writer too, and there is one writer at a time.

* `Held`: what is true while a call holds the lock, by how far its writer is.
* `Inv.run`: the file is whole at all times, and the live snapshot's whenever the lock is free.
* `Lawful.durable`: and what a call was acknowledged for stays, but for calls on the same entry.
-/

namespace Routeplane.Storage

variable {S F κ C B ν : Type} {reg : Registry S F κ C B} {st : State S C}

/-! ## Statements -/

/-- The bytes are the complete serialisation of a snapshot that a call planned. -/
def Serialises (reg : Registry S F κ C B) (target : Option Bytes) : Prop :=
  ∃ call live next file, reg.plan call live = some (next, file) ∧ target = some (reg.encode file)

/-- The file is the live snapshot's: written for it, or what it was read from. -/
def Holds (reg : Registry S F κ C B) (target : Option Bytes) (live : S) : Prop :=
  (∃ boot, reg.load boot target = some live) ∨
    ∃ call before file, reg.plan call before = some (live, file) ∧ target = some (reg.encode file)

/-- The call about to take the lock is about another entry. -/
def OtherEntry (reg : Registry S F κ C B) (key : κ) (st : State S C) (e : Event C B) : Prop :=
  ∀ id call, e = .lock id → st.tasks id = .waiting call → reg.key call ≠ key

/-- What holds of a registry over all runs, with any calls, disconnects and restarts. -/
structure Durable (reg : Registry S F κ C B) (get : S → κ → Option ν)
    (rel : Option ν → Option ν → Prop) : Prop where
  /-- At all times the file is the one first found or the complete serialisation of a snapshot. -/
  whole : ∀ boot target temp es, (∀ e ∈ es, e.isCancel = false) →
    (reached reg boot target temp es).disk.read .target = target ∨
      Serialises reg ((reached reg boot target temp es).disk.read .target)
  /-- Whenever no call is in progress the file is the live snapshot's. -/
  current : ∀ boot target temp es, (∀ e ∈ es, e.isCancel = false) →
    (∀ id, ((reached reg boot target temp es).tasks id).inProgress = false) →
    ∀ live, (reached reg boot target temp es).live = some live →
      Holds reg ((reached reg boot target temp es).disk.read .target) live
  /-- The entry a call was acknowledged for stays what it was set to, until a call about the same
  entry takes the lock. -/
  kept : ∀ boot target temp es id call next, (∀ e ∈ es, e.isCancel = false) →
    (reached reg boot target temp es).tasks id = .saving call next →
    (reached reg boot target temp es).writers id = some (.finished true) →
    ∀ es', (∀ e ∈ es', e.isCancel = false) →
      Run.Steps (step reg) (OtherEntry reg (reg.key call))
        (reached reg boot target temp (es ++ [.resume id])) es' →
      ∀ live, (reached reg boot target temp (es ++ [.resume id] ++ es')).live = some live →
        rel (get next (reg.key call)) (get live (reg.key call))

/-- What a registry's calls and starts do to its entries. -/
structure Lawful (reg : Registry S F κ C B) (get : S → κ → Option ν)
    (rel : Option ν → Option ν → Prop) (Good : S → Prop) : Prop where
  load_good : ∀ boot target live, reg.load boot target = some live → Good live
  plan_good : ∀ call live next file, Good live → reg.plan call live = some (next, file) → Good next
  frame : ∀ call live next file, Good live → reg.plan call live = some (next, file) →
    ∀ key, key ≠ reg.key call → get next key = get live key
  reload : ∀ call live next file boot again, Good live → reg.plan call live = some (next, file) →
    reg.load boot (some (reg.encode file)) = some again → ∀ key, rel (get next key) (get again key)
  load_load : ∀ boot boot' target live again, reg.load boot target = some live →
    reg.load boot' target = some again → ∀ key, rel (get live key) (get again key)
  refl : ∀ a, rel a a
  trans : ∀ a b c, rel a b → rel b c → rel a c

/-! ## The lock covers the writer -/

/-- How far the writer of the call that holds the lock is. -/
def Stage (reg : Registry S F κ C B) (disk : Disk) (live : S) (bytes : Bytes) : Writer → Prop
  | .opening bytes' => bytes' = bytes ∧ Holds reg (disk.read .target) live
  | .writing bytes' file written => bytes' = bytes ∧ Holds reg (disk.read .target) live ∧
      disk.file .temp = some file ∧ disk.contents file = bytes.take written ∧ written ≤ bytes.length
  | .finished true => disk.read .target = some bytes
  | .finished false => Holds reg (disk.read .target) live

/-- A call holds the lock. -/
structure Held (reg : Registry S F κ C B) (st : State S C) (id : ℕ) (call : C) (live next : S)
    (file : F) (writer : Writer) : Prop where
  lock : st.lock = some id
  task : st.tasks id = .saving call next
  written : st.writers id = some writer
  current : st.live = some live
  plan : reg.plan call live = some (next, file)
  others : ∀ other, other ≠ id →
    (∀ call next, st.tasks other ≠ .saving call next) ∧ st.writers other = none
  stage : Stage reg st.disk live (reg.encode file) writer

/-- No call holds the lock. -/
structure Free (reg : Registry S F κ C B) (st : State S C) : Prop where
  lock : st.lock = none
  tasks : ∀ id call next, st.tasks id ≠ .saving call next
  writers : ∀ id, st.writers id = none
  holds : ∀ live, st.live = some live → Holds reg (st.disk.read .target) live

structure Inv (reg : Registry S F κ C B) (Good : S → Prop) (first : Option Bytes) (st : State S C) :
    Prop where
  made : st.disk.Made
  apart : st.disk.Apart .temp .target
  whole : st.disk.read .target = first ∨ Serialises reg (st.disk.read .target)
  good : ∀ live, st.live = some live → Good live
  lock : Free reg st ∨ ∃ id call live next file writer, Held reg st id call live next file writer

variable {first : Option Bytes} {get : S → κ → Option ν} {rel : Option ν → Option ν → Prop}
  {Good : S → Prop}

theorem Inv.start (hlaw : Lawful reg get rel Good) (boot : B) (target temp : Option Bytes) :
    Inv reg Good target (start reg boot target temp) := by
  have hread : (diskOf target temp).read .target = target := by
    cases target <;> rfl
  refine ⟨?_, ?_, .inl hread, fun live hlive => hlaw.load_good boot target live hlive,
    .inl ⟨rfl, fun _ _ _ h => (by cases h), fun _ => rfl, ?_⟩⟩
  · intro name file hfile
    cases name with
    | target =>
      cases target with
      | none => cases hfile
      | some bytes =>
        cases hfile
        exact Nat.zero_lt_two
    | temp =>
      cases temp with
      | none => cases hfile
      | some bytes =>
        cases hfile
        exact Nat.one_lt_two
  · intro file hfile htarget
    cases target with
    | none => cases htarget
    | some bytes =>
      cases temp with
      | none => cases hfile
      | some left =>
        cases htarget
        cases hfile
  · intro live hlive
    refine .inl ⟨boot, ?_⟩
    show reg.load boot ((diskOf target temp).read .target) = some live
    rw [hread]
    exact hlive

/-! ## One event -/

namespace State

variable {id : ℕ}

theorem openTemp_of_none (h : st.writers id = none) : st.openTemp id = st := by
  unfold openTemp
  rw [h]

theorem write_of_none (h : st.writers id = none) (count : ℕ) : st.write id count = st := by
  unfold write
  rw [h]

theorem rename_of_none (h : st.writers id = none) : st.rename id = st := by
  unfold rename
  rw [h]

theorem fail_of_none (h : st.writers id = none) : st.fail id = st := by
  unfold fail
  rw [h]

theorem resume_of_not_saving (h : ∀ call next, st.tasks id ≠ .saving call next) :
    st.resume id = st := by
  unfold resume
  cases htask : st.tasks id with
  | saving call next => exact absurd htask (h call next)
  | idle | waiting call | answered saved => rfl

/-- What taking the lock does. -/
theorem takeLock_cases (reg : Registry S F κ C B) (st : State S C) (id : ℕ) :
    st.takeLock reg id = st ∨ ∃ call live, st.tasks id = .waiting call ∧ st.lock = none ∧
      st.live = some live ∧
      ((reg.plan call live = none ∧ st.takeLock reg id = st.setTask id (.answered false)) ∨
        ∃ next file, reg.plan call live = some (next, file) ∧ st.takeLock reg id =
          { (st.setTask id (.saving call next)).setWriter id (some (.opening (reg.encode file))) with
            lock := some id }) := by
  unfold takeLock
  cases htask : st.tasks id with
  | idle | saving call next | answered saved => exact .inl rfl
  | waiting call =>
    cases hlock : st.lock with
    | some holder => exact .inl rfl
    | none =>
      cases hlive : st.live with
      | none => exact .inl rfl
      | some live =>
        right
        refine ⟨call, live, rfl, rfl, rfl, ?_⟩
        dsimp only
        cases hplan : reg.plan call live with
        | none => exact .inl ⟨rfl, rfl⟩
        | some res => exact .inr ⟨res.1, res.2, rfl, rfl⟩

end State

/-- Another task starts or is answered. -/
theorem Free.setTask {id : ℕ} {task : Task S C} (h : Free reg st)
    (htask : ∀ call next, task ≠ .saving call next) : Free reg (st.setTask id task) where
  lock := h.lock
  tasks := by
    intro other call next
    show Function.update st.tasks id task other ≠ _
    by_cases heq : other = id
    · subst heq
      rw [Function.update_self]
      exact htask call next
    · rw [Function.update_of_ne heq]
      exact h.tasks other call next
  writers := h.writers
  holds := h.holds

section Held

variable {id : ℕ} {call : C} {live next : S} {file : F} {writer writer' : Writer}

theorem Held.setTask {other : ℕ} {task : Task S C} (h : Held reg st id call live next file writer)
    (hne : other ≠ id) (htask : ∀ call next, task ≠ .saving call next) :
    Held reg (st.setTask other task) id call live next file writer := by
  refine ⟨h.lock, ?_, h.written, h.current, h.plan, ?_, h.stage⟩
  · show Function.update st.tasks other task id = _
    rw [Function.update_of_ne hne.symm]
    exact h.task
  · intro third hthird
    refine ⟨?_, (h.others third hthird).2⟩
    intro call' next'
    show Function.update st.tasks other task third ≠ _
    by_cases heq : third = other
    · subst heq
      rw [Function.update_self]
      exact htask call' next'
    · rw [Function.update_of_ne heq]
      exact (h.others third hthird).1 call' next'

/-- The writer goes on. -/
theorem Held.setWriter (h : Held reg st id call live next file writer) {disk : Disk}
    (hstage : Stage reg disk live (reg.encode file) writer') :
    Held reg { st.setWriter id (some writer') with disk } id call live next file writer' := by
  refine ⟨h.lock, h.task, Function.update_self .., h.current, h.plan, ?_, hstage⟩
  intro other hother
  refine ⟨(h.others other hother).1, ?_⟩
  show Function.update st.writers id (some writer') other = none
  rw [Function.update_of_ne hother]
  exact (h.others other hother).2

/-- What the file is read as while the writer is at work. -/
theorem Held.holds (h : Held reg st id call live next file writer)
    (hwriter : writer ≠ .finished true) : Holds reg (st.disk.read .target) live := by
  have hstage := h.stage
  cases writer with
  | opening bytes => exact hstage.2
  | writing bytes temp written => exact hstage.2.1
  | finished ok =>
    cases ok with
    | true => exact absurd rfl hwriter
    | false => exact hstage

/-- After the call has answered. -/
theorem Held.free (h : Held reg st id call live next file writer) {saved : Bool} {live' : S}
    (hholds : Holds reg (st.disk.read .target) live') :
    Free reg { (st.setTask id (.answered saved)).setWriter id none with
      lock := none, live := some live' } where
  lock := rfl
  tasks := by
    intro other call' next'
    show Function.update st.tasks id (.answered saved) other ≠ _
    by_cases heq : other = id
    · subst heq
      rw [Function.update_self]
      exact fun hsaving => by cases hsaving
    · rw [Function.update_of_ne heq]
      exact (h.others other heq).1 call' next'
  writers := by
    intro other
    show Function.update st.writers id none other = none
    by_cases heq : other = id
    · rw [heq, Function.update_self]
    · rw [Function.update_of_ne heq]
      exact (h.others other heq).2
  holds := by
    intro live'' hlive
    rw [← Option.some_inj.1 hlive]
    exact hholds

end Held

/-! ## The invariant -/

section Events

variable {id : ℕ}

/-- The writers and the waiting future of a call that does not hold the lock do nothing. -/
theorem Inv.idle_or_held (h : Inv reg Good first st) (id : ℕ) :
    (st.writers id = none ∧ ∀ call next, st.tasks id ≠ .saving call next) ∨
      ∃ call live next file writer, Held reg st id call live next file writer := by
  rcases h.lock with hfree | ⟨holder, call, live, next, file, writer, hheld⟩
  · exact .inl ⟨hfree.writers id, hfree.tasks id⟩
  · by_cases heq : id = holder
    · subst heq
      exact .inr ⟨call, live, next, file, writer, hheld⟩
    · exact .inl ⟨(hheld.others id heq).2, (hheld.others id heq).1⟩

theorem Inv.held (h : Inv reg Good first st) {call : C} {live next : S} {file : F} {writer : Writer}
    {st' : State S C} (hmade : st'.disk.Made) (hapart : st'.disk.Apart .temp .target)
    (hread : st'.disk.read .target = st.disk.read .target) (hlive : st'.live = st.live)
    (hheld : Held reg st' id call live next file writer) : Inv reg Good first st' :=
  ⟨hmade, hapart, hread ▸ h.whole, hlive ▸ h.good, .inr ⟨id, call, live, next, file, writer, hheld⟩⟩

theorem Inv.openTemp (h : Inv reg Good first st) (id : ℕ) : Inv reg Good first (st.openTemp id) := by
  rcases h.idle_or_held id with ⟨hnone, -⟩ | ⟨call, live, next, file, writer, hheld⟩
  · rw [State.openTemp_of_none hnone]
    exact h
  have hwritten := hheld.written
  cases writer with
  | writing bytes temp written | finished ok =>
    unfold State.openTemp
    rw [hwritten]
    exact h
  | opening bytes =>
    have hopen : st.openTemp id =
        { st.setWriter id (some (.writing bytes (st.disk.openTruncate .temp).2 0)) with
          disk := (st.disk.openTruncate .temp).1 } := by
      unfold State.openTemp
      rw [hwritten]
    obtain ⟨hbytes, hholds⟩ := hheld.stage
    have hread : (st.disk.openTruncate .temp).1.read .target = st.disk.read .target :=
      Files.read_openTruncate h.made h.apart (by decide)
    rw [hopen]
    refine h.held (h.made.openTruncate _) (h.apart.openTruncate h.made (by decide)) hread rfl
      (hheld.setWriter ⟨hbytes, ?_, Files.file_openTruncate .., ?_, Nat.zero_le _⟩)
    · rw [hread]
      exact hholds
    · exact Files.contents_openTruncate ..

theorem take_append_chunk (bytes : Bytes) (written count : ℕ) :
    bytes.take written ++ (bytes.drop written).take count =
      bytes.take (written + ((bytes.drop written).take count).length) := by
  rw [List.take_add, List.length_take]
  congr 1
  rw [List.take_eq_take_iff]
  omega

theorem Inv.write (h : Inv reg Good first st) (id count : ℕ) :
    Inv reg Good first (st.write id count) := by
  rcases h.idle_or_held id with ⟨hnone, -⟩ | ⟨call, live, next, file, writer, hheld⟩
  · rw [State.write_of_none hnone]
    exact h
  have hwritten := hheld.written
  cases writer with
  | opening bytes | finished ok =>
    unfold State.write
    rw [hwritten]
    exact h
  | writing bytes temp written =>
    obtain ⟨hbytes, hholds, htemp, hcontents, hle⟩ := hheld.stage
    generalize hchunk : (bytes.drop written).take count = chunk
    have hwrite : st.write id count =
        { st.setWriter id (some (.writing bytes temp (written + chunk.length))) with
          disk := st.disk.write 0 temp written chunk } := by
      unfold State.write
      rw [hwritten, ← hchunk]
    have hread : (st.disk.write 0 temp written chunk).read .target = st.disk.read .target :=
      Files.read_write (h.apart temp htemp)
    rw [hwrite]
    refine h.held h.made h.apart hread rfl
      (hheld.setWriter ⟨hbytes, ?_, htemp, ?_, ?_⟩)
    · rw [hread]
      exact hholds
    · -- the file held the first `written` bytes
      have hlength : (st.disk.contents temp).length = written := by
        rw [hcontents, List.length_take, Nat.min_eq_left hle]
      have hsplice := Files.splice_length 0 (st.disk.contents temp) chunk
      rw [hlength] at hsplice
      rw [Files.contents_write, hsplice, hcontents, ← hbytes, ← hchunk, take_append_chunk]
    · have hlen : chunk.length ≤ bytes.length - written := by
        rw [← hchunk, List.length_take, List.length_drop]
        exact Nat.min_le_right _ _
      rw [← hbytes] at hle ⊢
      omega

theorem Inv.rename (h : Inv reg Good first st) (id : ℕ) : Inv reg Good first (st.rename id) := by
  rcases h.idle_or_held id with ⟨hnone, -⟩ | ⟨call, live, next, file, writer, hheld⟩
  · rw [State.rename_of_none hnone]
    exact h
  have hwritten := hheld.written
  cases writer with
  | opening bytes | finished ok =>
    unfold State.rename
    rw [hwritten]
    exact h
  | writing bytes temp written =>
    obtain ⟨hbytes, -, htemp, hcontents, -⟩ := hheld.stage
    by_cases hall : written = bytes.length
    · obtain ⟨disk, hdisk⟩ : ∃ disk, st.disk.rename .temp .target = some disk :=
        ⟨_, Files.rename_eq htemp _⟩
      have hrename : st.rename id = { st.setWriter id (some (.finished true)) with disk } := by
        unfold State.rename
        rw [hwritten]
        dsimp only
        rw [if_pos hall, hdisk]
      have hread : disk.read .target = some (reg.encode file) := by
        rw [Files.read_rename (by decide) htemp hdisk, hcontents, hall, hbytes, List.take_length]
      rw [hrename]
      exact ⟨h.made.rename hdisk, .of_absent (Files.file_rename_source hdisk) _,
        .inr ⟨call, live, next, file, hheld.plan, hread⟩, h.good,
        .inr ⟨id, call, live, next, file, _, hheld.setWriter hread⟩⟩
    · unfold State.rename
      rw [hwritten]
      dsimp only
      rw [if_neg hall]
      exact h

theorem Inv.fail (h : Inv reg Good first st) (id : ℕ) : Inv reg Good first (st.fail id) := by
  rcases h.idle_or_held id with ⟨hnone, -⟩ | ⟨call, live, next, file, writer, hheld⟩
  · rw [State.fail_of_none hnone]
    exact h
  have hwritten := hheld.written
  cases writer with
  | finished ok =>
    unfold State.fail
    rw [hwritten]
    exact h
  | opening bytes | writing bytes temp written =>
    have hfail : st.fail id = st.setWriter id (some (.finished false)) := by
      unfold State.fail
      rw [hwritten]
    rw [hfail]
    exact h.held h.made h.apart rfl rfl (hheld.setWriter (hheld.holds (fun heq => by cases heq)))

theorem Inv.resume (hlaw : Lawful reg get rel Good) (h : Inv reg Good first st) (id : ℕ) :
    Inv reg Good first (st.resume id) := by
  rcases h.idle_or_held id with ⟨-, hnone⟩ | ⟨call, live, next, file, writer, hheld⟩
  · rw [State.resume_of_not_saving hnone]
    exact h
  have hwritten := hheld.written
  cases writer with
  | opening bytes | writing bytes temp written =>
    unfold State.resume
    rw [hwritten, hheld.task]
    exact h
  | finished ok =>
    cases ok with
    | true =>
      have hresume : st.resume id = { (st.setTask id (.answered true)).setWriter id none with
          lock := none, live := some next } := by
        unfold State.resume
        rw [hwritten, hheld.task]
      rw [hresume]
      refine ⟨h.made, h.apart, h.whole, ?_,
        .inl (hheld.free (.inr ⟨call, live, file, hheld.plan, hheld.stage⟩))⟩
      intro live' hlive'
      rw [← Option.some_inj.1 hlive']
      exact hlaw.plan_good call live next file (h.good live hheld.current) hheld.plan
    | false =>
      have hresume : st.resume id = { (st.setTask id (.answered false)).setWriter id none with
          lock := none, live := some live } := by
        unfold State.resume
        rw [hwritten, hheld.task, ← hheld.current]
        rfl
      rw [hresume]
      refine ⟨h.made, h.apart, h.whole, ?_, .inl (hheld.free hheld.stage)⟩
      intro live' hlive'
      rw [← Option.some_inj.1 hlive']
      exact h.good live hheld.current

theorem Inv.takeLock (h : Inv reg Good first st) (id : ℕ) : Inv reg Good first (st.takeLock reg id) := by
  rcases State.takeLock_cases reg st id with hsame | ⟨call, live, htask, hlock, hlive, hplan⟩
  · rw [hsame]
    exact h
  have hfree : Free reg st := by
    rcases h.lock with hfree | ⟨holder, call, live, next, file, writer, hheld⟩
    · exact hfree
    · rw [hheld.lock] at hlock
      cases hlock
  rcases hplan with ⟨-, heq⟩ | ⟨next, file, hplan, heq⟩
  · rw [heq]
    exact ⟨h.made, h.apart, h.whole, h.good, .inl (hfree.setTask fun _ _ hsaving => by cases hsaving)⟩
  · rw [heq]
    refine ⟨h.made, h.apart, h.whole, h.good, .inr ⟨id, call, live, next, file, _, rfl,
      Function.update_self .., Function.update_self .., hlive, hplan, ?_,
      rfl, hfree.holds live hlive⟩⟩
    intro other hother
    refine ⟨?_, ?_⟩
    · intro call' next'
      show Function.update st.tasks id (.saving call next) other ≠ _
      rw [Function.update_of_ne hother]
      exact hfree.tasks other call' next'
    · show Function.update st.writers id _ other = none
      rw [Function.update_of_ne hother]
      exact hfree.writers other

theorem Inv.spawn (h : Inv reg Good first st) (id : ℕ) (call : C) :
    Inv reg Good first (st.spawn id call) := by
  unfold State.spawn
  cases htask : st.tasks id with
  | waiting call' | saving call' next | answered saved => exact h
  | idle =>
    cases hwriter : st.writers id with
    | some writer => exact h
    | none =>
      have hwaiting : ∀ call' next, Task.waiting call ≠ (Task.saving call' next : Task S C) :=
        fun _ _ hsaving => by cases hsaving
      rcases h.lock with hfree | ⟨holder, call', live, next, file, writer, hheld⟩
      · exact ⟨h.made, h.apart, h.whole, h.good, .inl (hfree.setTask hwaiting)⟩
      · have hne : id ≠ holder := by
          rintro rfl
          rw [hheld.task] at htask
          cases htask
        exact ⟨h.made, h.apart, h.whole, h.good,
          .inr ⟨holder, call', live, next, file, writer, hheld.setTask hne hwaiting⟩⟩

/-- **One event keeps the invariant.** -/
theorem Inv.step (hlaw : Lawful reg get rel Good) (h : Inv reg Good first st) {e : Event C B}
    (he : e.isCancel = false) :
    Inv reg Good first (step reg st e) := by
  cases e with
  | call id call => exact h.spawn id call
  | lock id => exact h.takeLock id
  | openTemp id => exact h.openTemp id
  | write id count => exact h.write id count
  | rename id => exact h.rename id
  | fail id => exact h.fail id
  | resume id => exact h.resume hlaw id
  | disconnect id => exact h
  | cancel id => cases he
  | restart boot =>
    have hidle : ∀ call next, Task.idle ≠ (Task.saving call next : Task S C) :=
      fun _ _ hsaving => by cases hsaving
    exact ⟨h.made, h.apart, h.whole, fun live hlive => hlaw.load_good boot _ live hlive,
      .inl ⟨rfl, fun _ => hidle, fun _ => rfl,
      fun live hlive => .inl ⟨boot, hlive⟩⟩⟩

end Events

/-- **A run keeps the invariant.** By induction on the events. -/
theorem Inv.run (hlaw : Lawful reg get rel Good) (h : Inv reg Good first st) {es : List (Event C B)}
    (hes : ∀ e ∈ es, e.isCancel = false) :
    Inv reg Good first (Run.run (Storage.step reg) st es) := by
  induction es generalizing st with
  | nil => exact h
  | cons e es ih =>
    exact ih (h.step hlaw (hes e List.mem_cons_self)) fun e' he' => hes e' (List.mem_cons_of_mem _ he')

/-! ## What was acknowledged -/

section Kept

variable {key : κ} {value : Option ν} {id : ℕ}

/-- An entry is what it was set to, live and in the file, and no call is about to change it. -/
structure Kept (reg : Registry S F κ C B) (get : S → κ → Option ν)
    (rel : Option ν → Option ν → Prop) (key : κ) (value : Option ν) (st : State S C) : Prop where
  live : ∀ live, st.live = some live → rel value (get live key)
  file : ∀ boot live, reg.load boot (st.disk.read .target) = some live → rel value (get live key)
  saving : ∀ id call next, st.tasks id = .saving call next → reg.key call ≠ key

/-- Nothing that counts has changed. -/
theorem Kept.frame {st' : State S C} (h : Kept reg get rel key value st)
    (hlive : st'.live = st.live) (hread : st'.disk.read .target = st.disk.read .target)
    (htasks : ∀ id call next, st'.tasks id = .saving call next → st.tasks id = .saving call next) :
    Kept reg get rel key value st' where
  live := hlive ▸ h.live
  file := hread ▸ h.file
  saving := fun id call next htask => h.saving id call next (htasks id call next htask)

theorem State.saving_of_setTask {task : Task S C} (htask : ∀ call next, task ≠ .saving call next)
    {other : ℕ} {call : C} {next : S} (h : (st.setTask id task).tasks other = .saving call next) :
    st.tasks other = .saving call next := by
  have hupdate : Function.update st.tasks id task other = .saving call next := h
  by_cases heq : other = id
  · subst heq
    rw [Function.update_self] at hupdate
    exact absurd hupdate (htask call next)
  · rw [Function.update_of_ne heq] at hupdate
    exact hupdate

theorem Kept.openTemp (hinv : Inv reg Good first st) (h : Kept reg get rel key value st) (id : ℕ) :
    Kept reg get rel key value (st.openTemp id) := by
  have hread : ((st.disk.openTruncate .temp).1).read .target = st.disk.read .target :=
    Files.read_openTruncate hinv.made hinv.apart (by decide)
  unfold State.openTemp
  split
  · exact h.frame rfl hread fun _ _ _ htask => htask
  · exact h

theorem Kept.write (hinv : Inv reg Good first st) (h : Kept reg get rel key value st)
    (id count : ℕ) : Kept reg get rel key value (st.write id count) := by
  rcases hinv.idle_or_held id with ⟨hnone, -⟩ | ⟨call, live, next, file, writer, hheld⟩
  · rw [State.write_of_none hnone]
    exact h
  unfold State.write
  rw [hheld.written]
  cases writer with
  | opening bytes | finished ok => exact h
  | writing bytes temp written =>
    obtain ⟨-, -, htemp, -, -⟩ := hheld.stage
    exact h.frame rfl (Files.read_write (hinv.apart temp htemp)) fun _ _ _ htask => htask

theorem Kept.fail (h : Kept reg get rel key value st) (id : ℕ) :
    Kept reg get rel key value (st.fail id) := by
  unfold State.fail
  split
  · exact h.frame rfl rfl fun _ _ _ htask => htask
  · exact h.frame rfl rfl fun _ _ _ htask => htask
  · exact h

theorem Kept.spawn (h : Kept reg get rel key value st) (id : ℕ) (call : C) :
    Kept reg get rel key value (st.spawn id call) := by
  unfold State.spawn
  split
  · have hwaiting : ∀ call' next, Task.waiting call ≠ (Task.saving call' next : Task S C) :=
      fun _ _ hsaving => by cases hsaving
    exact h.frame rfl rfl fun _ _ _ htask => State.saving_of_setTask hwaiting htask
  · exact h

/-- The file is replaced by one in which the entry is the same. -/
theorem Kept.rename (hlaw : Lawful reg get rel Good) (hinv : Inv reg Good first st)
    (h : Kept reg get rel key value st) (id : ℕ) :
    Kept reg get rel key value (st.rename id) := by
  rcases hinv.idle_or_held id with ⟨hnone, -⟩ | ⟨call, live, next, file, writer, hheld⟩
  · rw [State.rename_of_none hnone]
    exact h
  have hlive : (st.rename id).live = st.live := by
    unfold State.rename
    split
    · split
      · split <;> rfl
      · rfl
    · rfl
  have htasks : (st.rename id).tasks = st.tasks := by
    unfold State.rename
    split
    · split
      · split <;> rfl
      · rfl
    · rfl
  -- only the rename of a file that is written in full changes what a start reads
  have hread : (st.rename id).disk.read .target = st.disk.read .target ∨
      (st.rename id).disk.read .target = some (reg.encode file) := by
    cases writer with
    | opening bytes | finished ok =>
      left
      unfold State.rename
      rw [hheld.written]
    | writing bytes temp written =>
      obtain ⟨hbytes, -, htemp, hcontents, -⟩ := hheld.stage
      unfold State.rename
      rw [hheld.written]
      dsimp only
      split
      case isFalse => exact .inl rfl
      case isTrue hall =>
        obtain ⟨disk, hdisk⟩ : ∃ disk, st.disk.rename .temp .target = some disk :=
          ⟨_, Files.rename_eq htemp _⟩
        right
        rw [hdisk]
        show disk.read .target = _
        rw [Files.read_rename (by decide) htemp hdisk, hcontents, hall, hbytes, List.take_length]
  have hne : reg.key call ≠ key := h.saving id call next hheld.task
  rcases hread with hread | hread
  · exact h.frame hlive hread fun _ _ _ htask => htasks ▸ htask
  · refine ⟨hlive ▸ h.live, ?_, fun other call' next' htask =>
      h.saving other call' next' (htasks ▸ htask)⟩
    intro boot again hload
    rw [hread] at hload
    have hgood := hinv.good live hheld.current
    have hframe := hlaw.frame call live next file hgood hheld.plan key hne.symm
    have hreload := hlaw.reload call live next file boot again hgood hheld.plan hload key
    rw [hframe] at hreload
    exact hlaw.trans _ _ _ (h.live live hheld.current) hreload

/-- The snapshot is replaced by one in which the entry is the same. -/
theorem Kept.resume (hlaw : Lawful reg get rel Good) (hinv : Inv reg Good first st)
    (h : Kept reg get rel key value st) (id : ℕ) :
    Kept reg get rel key value (st.resume id) := by
  have hanswered : ∀ saved call next, Task.answered saved ≠ (Task.saving call next : Task S C) :=
    fun _ _ _ hsaving => by cases hsaving
  rcases hinv.idle_or_held id with ⟨-, hnone⟩ | ⟨call, live, next, file, writer, hheld⟩
  · rw [State.resume_of_not_saving hnone]
    exact h
  have hgood := hinv.good live hheld.current
  have hne : reg.key call ≠ key := h.saving id call next hheld.task
  unfold State.resume
  rw [hheld.task, hheld.written]
  cases writer with
  | opening bytes | writing bytes temp written => exact h
  | finished ok =>
    cases ok with
    | false =>
      exact h.frame rfl rfl fun _ _ _ htask => State.saving_of_setTask (hanswered false) htask
    | true =>
      refine ⟨?_, h.file, fun other call' next' htask => h.saving other call' next'
        (State.saving_of_setTask (hanswered true) htask)⟩
      intro live' hlive'
      rw [← Option.some_inj.1 hlive',
        hlaw.frame call live next file hgood hheld.plan key hne.symm]
      exact h.live live hheld.current

theorem Kept.takeLock (h : Kept reg get rel key value st)
    (hother : ∀ call, st.tasks id = .waiting call → reg.key call ≠ key) :
    Kept reg get rel key value (st.takeLock reg id) := by
  rcases State.takeLock_cases reg st id with hsame | ⟨call, live, htask, -, -, hplan⟩
  · rw [hsame]
    exact h
  rcases hplan with ⟨-, heq⟩ | ⟨next, file, -, heq⟩
  · rw [heq]
    exact h.frame rfl rfl fun _ _ _ hsaving =>
      State.saving_of_setTask (fun _ _ hsaving' => by cases hsaving') hsaving
  · rw [heq]
    refine ⟨h.live, h.file, ?_⟩
    intro other call' next' hsaving
    have hupdate : Function.update st.tasks id (.saving call next) other = .saving call' next' :=
      hsaving
    by_cases heq : other = id
    · subst heq
      rw [Function.update_self] at hupdate
      cases hupdate
      exact hother call htask
    · rw [Function.update_of_ne heq] at hupdate
      exact h.saving other call' next' hupdate

theorem Kept.step (hlaw : Lawful reg get rel Good) (hinv : Inv reg Good first st)
    (h : Kept reg get rel key value st) {e : Event C B} (he : e.isCancel = false)
    (hother : OtherEntry reg key st e) : Kept reg get rel key value (step reg st e) := by
  cases e with
  | call id call => exact h.spawn id call
  | lock id => exact h.takeLock fun call htask => hother id call rfl htask
  | openTemp id => exact h.openTemp hinv id
  | write id count => exact h.write hinv id count
  | rename id => exact h.rename hlaw hinv id
  | fail id => exact h.fail id
  | resume id => exact h.resume hlaw hinv id
  | disconnect id => exact h
  | cancel id => cases he
  | restart boot =>
    exact ⟨fun live hlive => h.file boot live hlive, h.file, fun _ _ _ hsaving => by cases hsaving⟩

/-- By induction on the events. -/
theorem Kept.run (hlaw : Lawful reg get rel Good) (hinv : Inv reg Good first st)
    (h : Kept reg get rel key value st) {es : List (Event C B)}
    (hes : ∀ e ∈ es, e.isCancel = false)
    (hother : Run.Steps (Storage.step reg) (OtherEntry reg key) st es) :
    Kept reg get rel key value (Run.run (Storage.step reg) st es) := by
  induction es generalizing st with
  | nil => exact h
  | cons e es ih =>
    have he := hes e List.mem_cons_self
    exact ih (hinv.step hlaw he) (h.step hlaw hinv he hother.1)
      (fun e' he' => hes e' (List.mem_cons_of_mem _ he')) hother.2

/-- What a call is acknowledged for is live, and in the file. -/
theorem kept_of_ack (hlaw : Lawful reg get rel Good) (hinv : Inv reg Good first st) {call : C}
    {next : S} (htask : st.tasks id = .saving call next)
    (hwriter : st.writers id = some (.finished true)) :
    Kept reg get rel (reg.key call) (get next (reg.key call)) (Storage.step reg st (.resume id)) := by
  obtain ⟨call', live, next', file, writer, hheld⟩ :
      ∃ call live next file writer, Held reg st id call live next file writer := by
    rcases hinv.idle_or_held id with ⟨hnone, -⟩ | hheld
    · rw [hnone] at hwriter
      cases hwriter
    · exact hheld
  have hsame : Task.saving call next = Task.saving call' next' := htask.symm.trans hheld.task
  cases hsame
  have hfinished : writer = .finished true := Option.some_inj.1 (hheld.written.symm.trans hwriter)
  subst hfinished
  have hresume : Storage.step reg st (.resume id) =
      { (st.setTask id (.answered true)).setWriter id none with lock := none, live := some next } := by
    show st.resume id = _
    unfold State.resume
    rw [hheld.task, hheld.written]
  have hread : st.disk.read .target = some (reg.encode file) := hheld.stage
  rw [hresume]
  refine ⟨?_, ?_, ?_⟩
  · intro live' hlive'
    rw [← Option.some_inj.1 hlive']
    exact hlaw.refl _
  · intro boot again hload
    have hencoded : reg.load boot (some (reg.encode file)) = some again := hread ▸ hload
    exact hlaw.reload call live next file boot again (hinv.good live hheld.current) hheld.plan
      hencoded _
  · intro other call' next' hsaving
    have hwaiting : ∀ call next, (.answered true : Task S C) ≠ .saving call next := by
      intro call next hsaving'
      cases hsaving'
    have hbefore := State.saving_of_setTask hwaiting hsaving
    by_cases heq : other = id
    · subst heq
      have hanswered : Function.update st.tasks other (.answered true) other =
          .saving call' next' := hsaving
      rw [Function.update_self] at hanswered
      cases hanswered
    · exact absurd hbefore ((hheld.others other heq).1 call' next')

end Kept

/-- **A lawful registry is durable.** -/
theorem Lawful.durable (hlaw : Lawful reg get rel Good) : Durable reg get rel where
  whole := by
    intro boot target temp es hes
    exact ((Inv.start hlaw boot target temp).run hlaw hes).whole
  current := by
    intro boot target temp es hes hquiet live hlive
    rcases ((Inv.start hlaw boot target temp).run hlaw hes).lock with hfree | hheld
    · exact hfree.holds live hlive
    · obtain ⟨id, call, live', next, file, writer, hheld⟩ := hheld
      have hprogress := hquiet id
      unfold reached at hprogress
      rw [hheld.task] at hprogress
      cases hprogress
  kept := by
    intro boot target temp es id call next hes htask hwriter es' hes' hother live hlive
    have hinv := (Inv.start hlaw boot target temp).run hlaw hes
    have hkept := kept_of_ack hlaw hinv htask hwriter
    unfold reached at hother hlive
    rw [Run.run_append, Run.run_snoc] at hlive
    rw [Run.run_snoc] at hother
    exact (hkept.run hlaw (hinv.step hlaw rfl) hes' hother).live live hlive

end Routeplane.Storage
