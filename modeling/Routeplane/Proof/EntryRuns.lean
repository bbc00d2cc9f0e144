import Routeplane.Proof.Durable

/-!
# What an entry of a registry goes through

Between two changes an entry stands: the live snapshot and the file have it alike, but while a call
on it has its bytes in the file and has not gone on. Such a call takes effect when it goes on, or at
the next start if there is one before.

* `Takes`: the events at which a call on an entry takes effect.
* `Stands.step`: what one event does to an entry.
* `tasks_step`: what one event does to the tasks.
* `Stands.exists_of_run`: an entry stands in every state of a run.
-/

namespace Routeplane.Storage

variable {S F κ C B ν : Type} {reg : Registry S F κ C B} {st : State S C} {get : S → κ → Option ν}
  {Good : S → Prop} {first : Option Bytes} {key : κ} {a : Option ν}

/-- The bytes of the call are the file, and its snapshot is not live yet. -/
structure Saved (st : State S C) (id : ℕ) (call : C) (next : S) : Prop where
  task : st.tasks id = .saving call next
  written : st.writers id = some (.finished true)

/-- A saved call on the entry goes on, or the process starts again. -/
def Takes (reg : Registry S F κ C B) (key : κ) (st : State S C) (e : Event C B) (call : C)
    (next : S) : Prop :=
  ∃ id, Saved st id call next ∧ reg.key call = key ∧ (e = .resume id ∨ ∃ boot, e = .restart boot)

/-- The entry is `a`, live and in the file; there it may be what a saved call made of it. -/
structure Stands (reg : Registry S F κ C B) (get : S → κ → Option ν) (key : κ) (a : Option ν)
    (st : State S C) : Prop where
  live : ∀ live, st.live = some live → get live key = a
  file : (∀ id call next, Saved st id call next → reg.key call ≠ key) →
    ∀ boot again, reg.load boot (st.disk.read .target) = some again → get again key = a

/-! ## A saved call -/

section Saved

variable {id other : ℕ} {call : C} {next : S}

theorem Saved.setTask {task : Task S C} (h : Saved st id call next)
    (hother : ∀ call next, st.tasks other ≠ .saving call next) :
    Saved (st.setTask other task) id call next := by
  have hne : id ≠ other := by
    rintro rfl
    exact hother call next h.task
  refine ⟨?_, h.written⟩
  show Function.update st.tasks other task id = _
  rw [Function.update_of_ne hne]
  exact h.task

theorem Saved.setWriter (h : Saved st id call next) (writer : Option Writer)
    (hother : st.writers other ≠ some (.finished true)) :
    Saved (st.setWriter other writer) id call next := by
  have hne : id ≠ other := by
    rintro rfl
    exact hother h.written
  refine ⟨h.task, ?_⟩
  show Function.update st.writers other writer id = _
  rw [Function.update_of_ne hne]
  exact h.written

/-- It was planned for the live snapshot, it is in the file, and it is the only one. -/
theorem Saved.held (h : Saved st id call next) (hinv : Inv reg Good first st) :
    ∃ live file, st.live = some live ∧ Good live ∧ reg.plan call live = some (next, file) ∧
      st.disk.read .target = some (reg.encode file) ∧
      ∀ other call' next', Saved st other call' next' → other = id := by
  rcases hinv.idle_or_held id with ⟨hnone, -⟩ | ⟨call', live, next', file, writer, hheld⟩
  · have hwritten := h.written
    rw [hnone] at hwritten
    cases hwritten
  have hsame : Task.saving call next = Task.saving call' next' := h.task.symm.trans hheld.task
  cases hsame
  have hfinished : writer = .finished true := Option.some_inj.1 (hheld.written.symm.trans h.written)
  subst hfinished
  refine ⟨live, file, hheld.current, hinv.good live hheld.current, hheld.plan, hheld.stage, ?_⟩
  intro other call' next' hother
  by_contra hne
  exact (hheld.others other hne).1 call' next' hother.task

end Saved

/-! ## One event -/

/-- The entry is not touched, and no saved call is lost. -/
theorem Stands.frame {st' : State S C} (h : Stands reg get key a st) (hlive : st'.live = st.live)
    (hread : st'.disk.read .target = st.disk.read .target)
    (hsaved : ∀ id call next, Saved st id call next → Saved st' id call next) :
    Stands reg get key a st' where
  live := hlive ▸ h.live
  file := by
    intro hnone
    rw [hread]
    exact h.file fun id call next hs => hnone id call next (hsaved id call next hs)

section Events

variable {id : ℕ}

theorem Stands.spawn (h : Stands reg get key a st) (id : ℕ) (call : C) :
    Stands reg get key a (st.spawn id call) := by
  unfold State.spawn
  split
  · rename_i hidle _
    refine h.frame rfl rfl fun other call' next hs => hs.setTask ?_
    intro call' next hsaving
    rw [hidle] at hsaving
    cases hsaving
  · exact h

theorem Stands.takeLock (h : Stands reg get key a st) (id : ℕ) :
    Stands reg get key a (st.takeLock reg id) := by
  rcases State.takeLock_cases reg st id with hsame | ⟨call, live, htask, hlock, hlive, hplan⟩
  · rw [hsame]
    exact h
  have hwaiting : ∀ call next, st.tasks id ≠ .saving call next := by
    intro call' next hsaving
    rw [htask] at hsaving
    cases hsaving
  rcases hplan with ⟨-, heq⟩ | ⟨next, file, -, heq⟩
  · rw [heq]
    exact h.frame rfl rfl fun other call' next hs => hs.setTask hwaiting
  · rw [heq]
    refine h.frame rfl rfl ?_
    intro other call' next' hs
    have hne : other ≠ id := by
      rintro rfl
      exact hwaiting call' next' hs.task
    refine ⟨(hs.setTask hwaiting).task, ?_⟩
    show Function.update st.writers id _ other = _
    rw [Function.update_of_ne hne]
    exact hs.written

theorem Stands.openTemp (hinv : Inv reg Good first st) (h : Stands reg get key a st) (id : ℕ) :
    Stands reg get key a (st.openTemp id) := by
  have hread : ((st.disk.openTruncate .temp).1).read .target = st.disk.read .target :=
    Files.read_openTruncate hinv.made hinv.apart (by decide)
  unfold State.openTemp
  split
  · rename_i bytes hopening
    refine h.frame rfl hread fun other call next hs => ⟨hs.task, ?_⟩
    exact (hs.setWriter (some (.writing bytes _ 0)) (by simp [hopening])).written
  · exact h

theorem Stands.write (hinv : Inv reg Good first st) (h : Stands reg get key a st) (id count : ℕ) :
    Stands reg get key a (st.write id count) := by
  rcases hinv.idle_or_held id with ⟨hnone, -⟩ | ⟨call, live, next, file, writer, hheld⟩
  · rw [State.write_of_none hnone]
    exact h
  unfold State.write
  rw [hheld.written]
  cases writer with
  | opening bytes | finished ok => exact h
  | writing bytes temp written =>
    obtain ⟨-, -, htemp, -, -⟩ := hheld.stage
    refine h.frame rfl (Files.read_write (hinv.apart temp htemp)) ?_
    exact fun other call' next' hs => ⟨hs.task, (hs.setWriter _ (by simp [hheld.written])).written⟩

theorem Stands.fail (h : Stands reg get key a st) (id : ℕ) :
    Stands reg get key a (st.fail id) := by
  unfold State.fail
  split
  · rename_i hopening
    exact h.frame rfl rfl fun other call next hs => hs.setWriter _ (by simp [hopening])
  · rename_i hwriting
    exact h.frame rfl rfl fun other call next hs => hs.setWriter _ (by simp [hwriting])
  · exact h

/-- What a finished rename puts into the file. -/
theorem Stands.rename (hlaw : Lawful reg get Eq Good) (hinv : Inv reg Good first st)
    (h : Stands reg get key a st) (id : ℕ) : Stands reg get key a (st.rename id) := by
  rcases hinv.idle_or_held id with ⟨hnone, -⟩ | ⟨call, live, next, file, writer, hheld⟩
  · rw [State.rename_of_none hnone]
    exact h
  cases writer with
  | opening bytes | finished ok =>
    unfold State.rename
    rw [hheld.written]
    exact h
  | writing bytes temp written =>
    have hwriting : st.writers id ≠ some (.finished true) := by simp [hheld.written]
    obtain ⟨hbytes, -, htemp, hcontents, -⟩ := hheld.stage
    unfold State.rename
    rw [hheld.written]
    dsimp only
    split
    case isFalse => exact h
    case isTrue hall =>
      obtain ⟨disk, hdisk⟩ : ∃ disk, st.disk.rename .temp .target = some disk :=
        ⟨_, Files.rename_eq htemp _⟩
      rw [hdisk]
      dsimp only
      have hread : disk.read .target = some (reg.encode file) := by
        rw [Files.read_rename (by decide) htemp hdisk, hcontents, hall, hbytes, List.take_length]
      refine ⟨h.live, ?_⟩
      intro hother boot again hload
      -- the call that is saved now is about another entry
      have hne : key ≠ reg.key call :=
        Ne.symm (hother id call next ⟨hheld.task, Function.update_self ..⟩)
      have hgood := hinv.good live hheld.current
      have hreload := hlaw.reload call live next file boot again hgood hheld.plan (hread ▸ hload) key
      rw [← hreload, hlaw.frame call live next file hgood hheld.plan key hne]
      exact h.live live hheld.current

/-- A saved call goes on. -/
theorem Saved.resume_eq {call : C} {next : S} (h : Saved st id call next) :
    st.resume id = { (st.setTask id (.answered true)).setWriter id none with
      lock := none, live := some next } := by
  unfold State.resume
  rw [h.task, h.written]

/-- The entry is what the call made of it; another call's snapshot has it as it was. -/
theorem Stands.resume (hlaw : Lawful reg get Eq Good) (hinv : Inv reg Good first st) {call : C}
    {next : S} (hs : Saved st id call next) : Stands reg get key (get next key) (st.resume id) := by
  obtain ⟨live, file, -, hgood, hplan, hread, -⟩ := hs.held hinv
  have hdisk : (st.resume id).disk = st.disk := by rw [hs.resume_eq]; rfl
  have hlive : (st.resume id).live = some next := by rw [hs.resume_eq]
  refine ⟨?_, ?_⟩
  · intro live' hlive'
    rw [Option.some_inj.1 (hlive.symm.trans hlive')]
  · intro _ boot again hload
    rw [hdisk, hread] at hload
    exact (hlaw.reload call live next file boot again hgood hplan hload key).symm

theorem Stands.resume_of_not_saved (hinv : Inv reg Good first st) (h : Stands reg get key a st)
    (hnone : ∀ call next, ¬Saved st id call next) : Stands reg get key a (st.resume id) := by
  rcases hinv.idle_or_held id with ⟨-, hidle⟩ | ⟨call, live, next, file, writer, hheld⟩
  · rw [State.resume_of_not_saving hidle]
    exact h
  unfold State.resume
  rw [hheld.task, hheld.written]
  cases writer with
  | opening bytes | writing bytes temp written => exact h
  | finished ok =>
    cases ok with
    | true => exact absurd ⟨hheld.task, hheld.written⟩ (hnone call next)
    | false =>
      refine h.frame rfl rfl ?_
      intro other call' next' hs
      have hne : other ≠ id := by
        rintro rfl
        have hwritten := hs.written
        rw [hheld.written] at hwritten
        cases hwritten
      exact absurd hs.task ((hheld.others other hne).1 call' next')

/-- A start reads the file. -/
theorem Stands.restart {boot : B}
    (hfile : ∀ boot again, reg.load boot (st.disk.read .target) = some again → get again key = a) :
    Stands reg get key a (step reg st (.restart boot)) where
  live := fun live hlive => hfile boot live hlive
  file := fun _ => hfile

/-- **What one event does to an entry**: a call on it takes effect, or it stands. -/
theorem Stands.step (hlaw : Lawful reg get Eq Good) (hinv : Inv reg Good first st)
    (h : Stands reg get key a st) {e : Event C B} (he : e.isCancel = false) :
    (∃ call next live file, Takes reg key st e call next ∧ st.live = some live ∧
      reg.plan call live = some (next, file) ∧ Stands reg get key (get next key) (step reg st e)) ∨
    (∀ call next, ¬Takes reg key st e call next) ∧ Stands reg get key a (step reg st e) := by
  have hquiet : (∀ id, e ≠ .resume id) → (∀ boot, e ≠ .restart boot) →
      ∀ call next, ¬Takes reg key st e call next := by
    rintro hresume hrestart call next ⟨id, -, -, heq | ⟨boot, heq⟩⟩
    · exact hresume id heq
    · exact hrestart boot heq
  cases e with
  | call id call => exact .inr ⟨hquiet (by simp) (by simp), h.spawn id call⟩
  | lock id => exact .inr ⟨hquiet (by simp) (by simp), h.takeLock id⟩
  | openTemp id => exact .inr ⟨hquiet (by simp) (by simp), h.openTemp hinv id⟩
  | write id count => exact .inr ⟨hquiet (by simp) (by simp), h.write hinv id count⟩
  | rename id => exact .inr ⟨hquiet (by simp) (by simp), h.rename hlaw hinv id⟩
  | fail id => exact .inr ⟨hquiet (by simp) (by simp), h.fail id⟩
  | disconnect id => exact .inr ⟨hquiet (by simp) (by simp), h⟩
  | cancel id => cases he
  | resume id =>
    by_cases hs : ∃ call next, Saved st id call next
    · obtain ⟨call, next, hs⟩ := hs
      obtain ⟨live, file, hlive, hgood, hplan, -, -⟩ := hs.held hinv
      by_cases hkey : reg.key call = key
      · exact .inl ⟨call, next, live, file, ⟨id, hs, hkey, .inl rfl⟩, hlive, hplan,
          Stands.resume hlaw hinv hs⟩
      · -- a call of another key leaves the entry as it is
        have hsame : get next key = a := by
          rw [hlaw.frame call live next file hgood hplan key (Ne.symm hkey)]
          exact h.live live hlive
        refine .inr ⟨?_, hsame ▸ Stands.resume hlaw hinv hs⟩
        rintro call' next' ⟨id', hs', hkey', heq | ⟨boot, heq⟩⟩
        · cases heq
          have htask : Task.saving call next = Task.saving call' next' :=
            hs.task.symm.trans hs'.task
          cases htask
          exact hkey hkey'
        · cases heq
    · have hnone : ∀ call next, ¬Saved st id call next :=
        fun call next hs' => hs ⟨call, next, hs'⟩
      refine .inr ⟨?_, h.resume_of_not_saved hinv hnone⟩
      rintro call next ⟨id', hs', -, heq | ⟨boot, heq⟩⟩
      · cases heq
        exact hnone call next hs'
      · cases heq
  | restart boot =>
    by_cases hs : ∃ id call next, Saved st id call next ∧ reg.key call = key
    · -- the start reads the file of a call that did not get to swap
      obtain ⟨id, call, next, hs, hkey⟩ := hs
      obtain ⟨live, file, hlive, hgood, hplan, hread, -⟩ := hs.held hinv
      refine .inl ⟨call, next, live, file, ⟨id, hs, hkey, .inr ⟨boot, rfl⟩⟩, hlive, hplan,
        Stands.restart ?_⟩
      intro boot' again hload
      rw [hread] at hload
      exact (hlaw.reload call live next file boot' again hgood hplan hload key).symm
    · refine .inr ⟨?_, Stands.restart (h.file fun id call next hs' hkey =>
        hs ⟨id, call, next, hs', hkey⟩)⟩
      rintro call next ⟨id, hs', hkey, -⟩
      exact hs ⟨id, call, next, hs', hkey⟩

end Events

/-! ## The tasks -/

namespace State

variable (st : State S C) (id : ℕ)

theorem tasks_spawn (call : C) : (st.spawn id call).tasks = st.tasks ∨
    (st.spawn id call).tasks = Function.update st.tasks id (.waiting call) := by
  unfold spawn
  split
  · exact .inr rfl
  · exact .inl rfl

theorem tasks_openTemp : (st.openTemp id).tasks = st.tasks := by
  unfold openTemp
  split <;> rfl

theorem tasks_write (count : ℕ) : (st.write id count).tasks = st.tasks := by
  unfold write
  split <;> rfl

theorem tasks_rename : (st.rename id).tasks = st.tasks := by
  unfold rename
  split
  · split
    · split <;> rfl
    · rfl
  · rfl

theorem tasks_fail : (st.fail id).tasks = st.tasks := by
  unfold fail
  split <;> rfl

theorem tasks_resume : (st.resume id).tasks = st.tasks ∨
    ∃ saved, (st.resume id).tasks = Function.update st.tasks id (.answered saved) := by
  unfold resume
  split
  · exact .inr ⟨true, rfl⟩
  · exact .inr ⟨false, rfl⟩
  · exact .inl rfl

theorem tasks_cancel : (st.cancel id).tasks = st.tasks ∨
    (st.cancel id).tasks = Function.update st.tasks id .idle := by
  unfold cancel
  split
  · exact .inr rfl
  · exact .inr rfl
  · exact .inl rfl

end State

/-- What one event does to the tasks: one starts, takes the lock, or ends, or all are gone. -/
theorem tasks_step (reg : Registry S F κ C B) (st : State S C) (e : Event C B) :
    (step reg st e).tasks = st.tasks ∨
      (∃ id call, e = .call id call ∧
        (step reg st e).tasks = Function.update st.tasks id (.waiting call)) ∨
      (∃ id call next, st.tasks id = .waiting call ∧
        (step reg st e).tasks = Function.update st.tasks id (.saving call next)) ∨
      (∃ id task, (task = .idle ∨ ∃ saved, task = .answered saved) ∧
        (step reg st e).tasks = Function.update st.tasks id task) ∨
      (step reg st e).tasks = fun _ => .idle := by
  cases e with
  | call id call =>
    exact (st.tasks_spawn id call).imp_right fun heq => .inl ⟨id, call, rfl, heq⟩
  | lock id =>
    rcases State.takeLock_cases reg st id with hsame | ⟨call, live, htask, -, -, ⟨-, heq⟩ | hplan⟩
    · exact .inl (congrArg State.tasks hsame)
    · exact .inr (.inr (.inr (.inl ⟨id, _, .inr ⟨false, rfl⟩, congrArg State.tasks heq⟩)))
    · obtain ⟨next, file, -, heq⟩ := hplan
      exact .inr (.inr (.inl ⟨id, call, next, htask, congrArg State.tasks heq⟩))
  | openTemp id => exact .inl (st.tasks_openTemp id)
  | write id count => exact .inl (st.tasks_write id count)
  | rename id => exact .inl (st.tasks_rename id)
  | fail id => exact .inl (st.tasks_fail id)
  | resume id =>
    refine (st.tasks_resume id).imp_right ?_
    rintro ⟨saved, heq⟩
    exact .inr (.inr (.inl ⟨id, _, .inr ⟨saved, rfl⟩, heq⟩))
  | disconnect id => exact .inl rfl
  | cancel id =>
    exact (st.tasks_cancel id).imp_right fun heq => .inr (.inr (.inl ⟨id, _, .inl rfl, heq⟩))
  | restart boot => exact .inr (.inr (.inr (.inr rfl)))

/-! ## Runs -/

theorem Stands.start (hlaw : Lawful reg get Eq Good) (boot : B) (target temp : Option Bytes) :
    ∃ a, Stands reg get key a (start reg boot target temp) := by
  have hread : (diskOf target temp).read .target = target := by
    cases target <;> rfl
  by_cases hloads : ∃ boot live, reg.load boot target = some live
  · obtain ⟨boot', live, hload⟩ := hloads
    refine ⟨get live key, ?_, ?_⟩
    · intro live' hlive'
      exact (hlaw.load_load boot' boot target live live' hload hlive' key).symm
    · intro _ boot'' again hagain
      have htarget : reg.load boot'' target = some again := hread ▸ hagain
      exact (hlaw.load_load boot' boot'' target live again hload htarget key).symm
  · refine ⟨none, ?_, ?_⟩
    · intro live hlive
      exact absurd ⟨boot, live, hlive⟩ hloads
    · intro _ boot' again hagain
      have htarget : reg.load boot' target = some again := hread ▸ hagain
      exact absurd ⟨boot', again, htarget⟩ hloads

/-- By induction on the events. -/
theorem Stands.exists_of_run (hlaw : Lawful reg get Eq Good) (hinv : Inv reg Good first st)
    (h : ∃ a, Stands reg get key a st) {es : List (Event C B)}
    (hes : ∀ e ∈ es, e.isCancel = false) :
    ∃ a, Stands reg get key a (Run.run (Storage.step reg) st es) := by
  induction es generalizing st with
  | nil => exact h
  | cons e es ih =>
    obtain ⟨a, h⟩ := h
    have he := hes e List.mem_cons_self
    refine ih (hinv.step hlaw he) ?_ fun e' he' => hes e' (List.mem_cons_of_mem _ he')
    rcases h.step hlaw hinv he with ⟨call, next, live, file, -, -, -, hstands⟩ | ⟨-, hstands⟩
    · exact ⟨_, hstands⟩
    · exact ⟨_, hstands⟩

end Routeplane.Storage
