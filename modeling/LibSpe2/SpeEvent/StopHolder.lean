import LibSpe2.SpeEvent.StopStep

/-!
# The stop-event pipe: the holder of the lock

One rule for each command that the holder of a `stop_event_lock` issues about its pipe: the stage
it needs and the stage it leads to. The stages go

* `shut` → (`pipe`) → `turning` → (both members stored, `O_NONBLOCK` set, count `1`) → `inUse`,
* `inUse` → (count `0`) → `turning` → (both ends closed, both members `-1`) → `shut`.
-/

namespace LibSpe2

open Function (update)

section

variable {strict : Prop} {t : Tid} {s s' : World} {g : Stage} {c : Spe} {φ : Held}
  {p : PipeId} {r w m₀ m₁ : Fd} {o₀ o₁ nb : Bool} {n : Int} {got : List UInt8}

/-! ## Loads -/

theorem Files.ne_neg {fd : Fd} (h : Files s) (hfd : s.fds fd ≠ none) : fd ≠ -1 := by
  rintro rfl
  exact absurd (h.numbers _ hfd) (by decide)

/-- A load tells what the shape says about the member. -/
theorem safe_load {l : Loc} {P : Int → Prop}
    (h : ∀ s, Files s → Shape strict c φ s → P (s.mem l)) :
    StopSafe strict t (load l) (g.hold c φ) fun v g' => g' = g.hold c φ ∧ P v := by
  refine safe_held fun s hf hs _ => ⟨trivial, fun v s' _ he => ?_⟩
  obtain ⟨rfl, rfl⟩ := of_guard he
  exact ⟨φ, ⟨id, fun _ h => h, fun _ _ => (Quiet.refl s).keeps _, rfl, rfl, rfl⟩, hs, .inl rfl, rfl,
    h s hf hs⟩

theorem safe_load_pipe_shut {i : Fin 2} :
    StopSafe strict t (load (.stopEventPipe c i)) (g.hold c .shut) fun v g' =>
      g' = g.hold c .shut ∧ v = -1 :=
  safe_load fun _ _ hs => hs.pipe i

theorem safe_load_pipe₀_inUse {extra adj : Int} :
    StopSafe strict t (load (.stopEventPipe c 0)) (g.hold c (.inUse p r w n extra adj got))
      fun v g' => g' = g.hold c (.inUse p r w n extra adj got) ∧ v = r ∧ v ≠ -1 :=
  safe_load fun s hf hs => by
    rw [hs.pipe₀]
    exact ⟨rfl, hf.ne_neg (by simp [hs.readEnd])⟩

theorem safe_load_pipe₁_inUse {extra adj : Int} :
    StopSafe strict t (load (.stopEventPipe c 1)) (g.hold c (.inUse p r w n extra adj got))
      fun v g' => g' = g.hold c (.inUse p r w n extra adj got) ∧ v = w ∧ v ≠ -1 :=
  safe_load fun s hf hs => by
    rw [hs.pipe₁]
    exact ⟨rfl, hf.ne_neg (by simp [hs.writeEnd])⟩

theorem safe_load_pipe₀_turning :
    StopSafe strict t (load (.stopEventPipe c 0)) (g.hold c (.turning p r w m₀ m₁ o₀ o₁ nb))
      fun v g' => g' = g.hold c (.turning p r w m₀ m₁ o₀ o₁ nb) ∧
        v = m₀ ∧ (o₀ = true → r ≠ -1) :=
  safe_load fun _ hf hs => ⟨hs.pipe₀, fun ho => hf.ne_neg (by simp [(hs.readEnd ho).1])⟩

theorem safe_load_pipe₁_turning :
    StopSafe strict t (load (.stopEventPipe c 1)) (g.hold c (.turning p r w m₀ m₁ o₀ o₁ nb))
      fun v g' => g' = g.hold c (.turning p r w m₀ m₁ o₀ o₁ nb) ∧
        v = m₁ ∧ (o₁ = true → w ≠ -1) :=
  safe_load fun _ hf hs => ⟨hs.pipe₁, fun ho => hf.ne_neg (by simp [hs.writeEnd ho])⟩

theorem safe_load_count_shut :
    StopSafe strict t (load (.stopEventHandlerCount c)) (g.hold c .shut) fun v g' =>
      g' = g.hold c .shut ∧ v = 0 :=
  safe_load fun _ _ hs => hs.unused.count

theorem safe_load_count_turning :
    StopSafe strict t (load (.stopEventHandlerCount c)) (g.hold c (.turning p r w m₀ m₁ o₀ o₁ nb))
      fun v g' => g' = g.hold c (.turning p r w m₀ m₁ o₀ o₁ nb) ∧ v = 0 :=
  safe_load fun _ _ hs => hs.unused.count

theorem safe_load_count_inUse {extra adj : Int} :
    StopSafe strict t (load (.stopEventHandlerCount c))
      (g.hold c (.inUse p r w n extra adj got)) fun v g' =>
        g' = g.hold c (.inUse p r w n extra adj got) ∧ v = n ∧ 0 < n :=
  safe_load fun _ _ hs => ⟨hs.count, hs.pos⟩

/-! ## Setting up -/

theorem Local.setErrno {e : Errno} : Local c s (s.setErrno t e) :=
  ⟨fun h => ⟨h.numbers, h.sets, h.ends, h.arrays⟩, fun _ h => h,
    fun c' _ => (Quiet.fields s _ _ _ _ _).keeps c', rfl, rfl, rfl⟩

theorem Shape.setErrno {e : Errno} (h : Shape strict c φ s) : Shape strict c φ (s.setErrno t e) :=
  h.keeps ((Quiet.fields s _ _ _ _ _).keeps c)

theorem safe_pipe :
    StopSafe strict t (perform (.pipe c)) (g.hold c .shut) fun x g' => match x with
      | .ok (r, w) => ∃ p, g' = g.hold c (.turning p r w (-1) (-1) true true false)
      | .error _ => g' = g.hold c .shut := by
  refine safe_held fun s hf hs _ => ⟨trivial, fun x s' _ he => ?_⟩
  cases x with
  | error e =>
    obtain rfl := Option.some.inj he
    exact ⟨.shut, .setErrno, hs.setErrno, .inl rfl, rfl⟩
  | ok rw =>
    obtain ⟨r, w⟩ := rw
    obtain ⟨⟨hr, hw, hne⟩, rfl⟩ := of_guard he
    refine ⟨_, .newPipe hr hw, ?_, .inr hs.unused.runs, s.nextPipe, rfl⟩
    exact {
      lt := Nat.lt_succ_self _
      spe := by simp [World.newPipe, Pipe.fresh]
      past := fun q hq hc hne => by
        have hne : q ≠ s.nextPipe := fun h => hne (h ▸ rfl)
        simp only [World.newPipe, ne_eq, hne, not_false_eq_true, Function.update_of_ne] at hc ⊢
        exact hs.past q ((Nat.lt_succ_iff.mp hq).lt_of_ne hne) hc (by simp)
      pipe₀ := hs.pipe 0
      pipe₁ := hs.pipe 1
      unused := ⟨hs.unused.count, hs.unused.runs, hs.unused.registered⟩
      closedR := by simp [World.newPipe, Pipe.fresh]
      closedW := by simp [World.newPipe, Pipe.fresh]
      readEnd := fun _ => by
        refine ⟨by simp [World.newPipe, hne], fun h => ?_⟩
        by_contra hh
        exact hf.sets h r hh hr.2
      writeEnd := fun _ => by simp [World.newPipe]
      nonblocking := nofun
      stream := fun _ => by simp [World.newPipe, Pipe.fresh, Stream] }

/-- Members change while the pipe is set up or torn down. -/
theorem safe_store_pipe₀ {v : Fd} :
    StopSafe strict t (store (.stopEventPipe c 0) v) (g.hold c (.turning p r w m₀ m₁ o₀ o₁ nb))
      fun _ g' => g' = g.hold c (.turning p r w v m₁ o₀ o₁ nb) := by
  refine safe_held fun s _ hs _ => ⟨trivial, fun _ s' _ he => ?_⟩
  obtain rfl := Option.some.inj he
  refine ⟨.turning p r w v m₁ o₀ o₁ nb, .setMem (.inr ⟨0, rfl⟩), ?_, .inl rfl, rfl⟩
  exact { hs with
    pipe₀ := by simp [World.setMem]
    pipe₁ := by simpa [World.setMem] using hs.pipe₁
    unused := { hs.unused with count := by simpa [World.setMem] using hs.unused.count } }

theorem safe_store_pipe₁ {v : Fd} :
    StopSafe strict t (store (.stopEventPipe c 1) v) (g.hold c (.turning p r w m₀ m₁ o₀ o₁ nb))
      fun _ g' => g' = g.hold c (.turning p r w m₀ v o₀ o₁ nb) := by
  refine safe_held fun s _ hs _ => ⟨trivial, fun _ s' _ he => ?_⟩
  obtain rfl := Option.some.inj he
  refine ⟨.turning p r w m₀ v o₀ o₁ nb, .setMem (.inr ⟨1, rfl⟩), ?_, .inl rfl, rfl⟩
  exact { hs with
    pipe₀ := by simpa [World.setMem] using hs.pipe₀
    pipe₁ := by simp [World.setMem]
    unused := { hs.unused with count := by simpa [World.setMem] using hs.unused.count } }

theorem past_setPipe {x : Pipe} (h : Past strict c (some p) s) :
    Past strict c (some p) (s.setPipe p x) := by
  intro q hq hc hne
  have hqp : q ≠ p := fun h => hne (h ▸ rfl)
  simp only [World.setPipe, ne_eq, hqp, not_false_eq_true, Function.update_of_ne] at hc ⊢
  exact h q hq hc hne

theorem safe_fcntlSetfl :
    StopSafe strict t (perform (.fcntlSetfl r true)) (g.hold c (.turning p r w m₀ m₁ true o₁ nb))
      fun x g' => match x with
        | .ok _ => g' = g.hold c (.turning p r w m₀ m₁ true o₁ true)
        | .error _ => g' = g.hold c (.turning p r w m₀ m₁ true o₁ nb) := by
  refine safe_held fun s _ hs _ => ⟨trivial, fun x s' _ he => ?_⟩
  cases x with
  | error e =>
    obtain rfl := Option.some.inj he
    exact ⟨.turning p r w m₀ m₁ true o₁ nb, .setErrno, hs.setErrno, .inl rfl, rfl⟩
  | ok u =>
    simp only [exec, (hs.readEnd rfl).1, Option.some.injEq] at he
    obtain rfl := he
    refine ⟨.turning p r w m₀ m₁ true o₁ true, .setPipe hs.spe hs.spe, ?_, .inl rfl, rfl⟩
    exact { hs with
      spe := by simpa [World.setPipe] using hs.spe
      past := past_setPipe hs.past
      unused := { hs.unused with }
      closedR := by simpa [World.setPipe] using hs.closedR
      closedW := by simpa [World.setPipe] using hs.closedW
      nonblocking := fun _ => by simp [World.setPipe]
      stream := fun hst => by simpa [World.setPipe, Stream] using hs.stream hst }

/-! ## Tearing down -/

theorem safe_close₀ :
    StopSafe strict t (perform (.close r)) (g.hold c (.turning p r w m₀ m₁ true o₁ nb))
      fun _ g' => g' = g.hold c (.turning p r w m₀ m₁ false o₁ nb) := by
  refine safe_held fun s _ hs ho => ⟨fun q hq => ?_, fun _ s' _ he => ?_⟩
  · obtain rfl := EndOf.inj (.inl (hs.readEnd rfl).1) hq
    rw [hs.spe]
    exact ⟨hs.unused, ho⟩
  · obtain rfl := Option.some.inj he
    have hr := (hs.readEnd rfl).1
    have hrw : o₁ = true → w ≠ r := by
      rintro ho rfl
      simp [hs.writeEnd ho] at hr
    simp only [World.noteClose, hr]
    refine ⟨.turning p r w m₀ m₁ false o₁ nb, .close (.inl hr) hs.spe hs.spe, ?_, .inl rfl, rfl⟩
    exact { hs with
      spe := by simpa [World.closeFd, World.setPipe] using hs.spe
      past := past_setPipe hs.past
      unused := { hs.unused with }
      closedR := by simpa [World.closeFd, World.setPipe] using hs.closedR
      closedW := by simpa [World.closeFd, World.setPipe] using hs.closedW
      readEnd := nofun
      writeEnd := fun ho => by simpa [World.closeFd, World.setPipe, hrw ho] using hs.writeEnd ho
      nonblocking := fun hn => by simpa [World.closeFd, World.setPipe] using hs.nonblocking hn
      stream := fun hst => by simpa [World.closeFd, World.setPipe, Stream] using hs.stream hst }

theorem safe_close₁ :
    StopSafe strict t (perform (.close w)) (g.hold c (.turning p r w m₀ m₁ false true nb))
      fun _ g' => g' = g.hold c (.turning p r w m₀ m₁ false false nb) := by
  refine safe_held fun s _ hs ho => ⟨fun q hq => ?_, fun _ s' _ he => ?_⟩
  · obtain rfl := EndOf.inj (.inr (hs.writeEnd rfl)) hq
    rw [hs.spe]
    exact ⟨hs.unused, ho⟩
  · obtain rfl := Option.some.inj he
    have hw := hs.writeEnd rfl
    simp only [World.noteClose, hw]
    refine ⟨.turning p r w m₀ m₁ false false nb, .close (.inr hw) hs.spe hs.spe, ?_, .inl rfl, rfl⟩
    exact { hs with
      spe := by simpa [World.closeFd, World.setPipe] using hs.spe
      past := past_setPipe hs.past
      unused := { hs.unused with }
      closedR := by simpa [World.closeFd, World.setPipe] using hs.closedR
      closedW := by simpa [World.closeFd, World.setPipe] using hs.closedW
      readEnd := nofun
      writeEnd := nofun
      nonblocking := fun hn => by simpa [World.closeFd, World.setPipe] using hs.nonblocking hn
      stream := fun hst => by simpa [World.closeFd, World.setPipe, Stream] using hs.stream hst }

/-- The last member goes back to `-1`. -/
theorem safe_store_shut :
    StopSafe strict t (store (.stopEventPipe c 1) (-1))
      (g.hold c (.turning p r w (-1) m₁ false false nb)) fun _ g' => g' = g.hold c .shut := by
  refine safe_held fun s _ hs _ => ⟨trivial, fun _ s' _ he => ?_⟩
  obtain rfl := Option.some.inj he
  refine ⟨.shut, .setMem (.inr ⟨1, rfl⟩), ?_, .inl rfl, rfl⟩
  refine ⟨fun q hq hc _ => ?_, fun i => ?_, { hs.unused with
    count := by simpa [World.setMem] using hs.unused.count }⟩
  · by_cases hqp : q = p
    · subst hqp
      exact ⟨hs.closedR, hs.closedW, hs.stream⟩
    · exact hs.past q hq hc (by simpa using Ne.symm hqp)
  · obtain rfl | rfl : i = 0 ∨ i = 1 := by omega
    · simpa [World.setMem] using hs.pipe₀
    · simp [World.setMem]

/-! ## The count -/

/-- The first acquire takes a pipe that has been set up into use. -/
theorem safe_store_count_first :
    StopSafe strict t (store (.stopEventHandlerCount c) 1)
      (g.hold c (.turning p r w r w true true true)) fun _ g' =>
        g' = g.hold c (.inUse p r w 1 1 0 []) := by
  refine safe_held fun s _ hs _ => ⟨trivial, fun _ s' _ he => ?_⟩
  obtain rfl := Option.some.inj he
  refine ⟨.inUse p r w 1 1 0 [], .setMem (.inl rfl), ?_, .inr hs.unused.runs, rfl⟩
  exact {
    lt := hs.lt
    spe := hs.spe
    past := hs.past
    pipe₀ := by simpa [World.setMem] using hs.pipe₀
    pipe₁ := by simpa [World.setMem] using hs.pipe₁
    count := by simp [World.setMem]
    pos := by decide
    readEnd := (hs.readEnd rfl).1
    writeEnd := hs.writeEnd rfl
    closedR := hs.closedR
    closedW := hs.closedW
    nonblocking := hs.nonblocking rfl
    stream := hs.stream
    users := by
      refine ⟨∅, fun h => ?_, ?_, ?_⟩
      · simpa [World.setMem] using (hs.readEnd rfl).2 h
      · simp [World.setMem, hs.unused.runs]
      · simp [World.setMem, hs.unused.registered] }

/-- Further acquires. -/
theorem safe_store_count_more :
    StopSafe strict t (store (.stopEventHandlerCount c) (n + 1))
      (g.hold c (.inUse p r w n 0 0 [])) fun _ g' =>
        g' = g.hold c (.inUse p r w (n + 1) 1 0 []) := by
  refine safe_held fun s _ hs _ => ⟨trivial, fun _ s' _ he => ?_⟩
  obtain rfl := Option.some.inj he
  refine ⟨.inUse p r w (n + 1) 1 0 [], .setMem (.inl rfl), ?_, .inl rfl, rfl⟩
  exact { hs with
    pipe₀ := by simpa [World.setMem] using hs.pipe₀
    pipe₁ := by simpa [World.setMem] using hs.pipe₁
    count := by simp [World.setMem]
    pos := Int.lt_trans hs.pos (Int.lt_succ n)
    users := by
      obtain ⟨live, hlive, hn, hreg⟩ := hs.users
      exact ⟨live, hlive, by simpa [World.setMem] using hn, hreg⟩ }

/-- Releases, of which the last leaves the pipe to be torn down. -/
theorem safe_store_count_less :
    StopSafe strict t (store (.stopEventHandlerCount c) (n - 1))
      (g.hold c (.inUse p r w n 1 0 [])) fun _ g' =>
        0 < n - 1 ∧ g' = g.hold c (.inUse p r w (n - 1) 0 0 []) ∨
          n - 1 = 0 ∧ g' = g.hold c (.turning p r w r w true true true) := by
  refine safe_held fun s _ hs _ => ⟨trivial, fun _ s' _ he => ?_⟩
  obtain rfl := Option.some.inj he
  obtain ⟨live, hlive, hn, hreg⟩ := hs.users
  by_cases hlast : 0 < n - 1
  · refine ⟨.inUse p r w (n - 1) 0 0 [], .setMem (.inl rfl), ?_, .inl rfl, .inl ⟨hlast, rfl⟩⟩
    exact { hs with
      pipe₀ := by simpa [World.setMem] using hs.pipe₀
      pipe₁ := by simpa [World.setMem] using hs.pipe₁
      count := by simp [World.setMem]
      pos := hlast
      users := ⟨live, hlive, by simp only [World.setMem]; omega, hreg⟩ }
  · -- nobody is left
    have hone : n - 1 = 0 := by have := hs.pos; omega
    have hcard : live.card = 0 := by omega
    have hruns : s.hist.runs c = [] := List.length_eq_zero_iff.mp (by omega)
    refine ⟨.turning p r w r w true true true, .setMem (.inl rfl), ?_, .inr hruns, .inr ⟨hone, rfl⟩⟩
    exact { hs with
      pipe₀ := by simpa [World.setMem] using hs.pipe₀
      pipe₁ := by simpa [World.setMem] using hs.pipe₁
      unused := ⟨by simpa [World.setMem] using hone, hruns, by
        have : s.hist.registrations c = s.hist.deregistrations c := by omega
        simpa [World.setMem] using this⟩
      readEnd := fun _ => by
        refine ⟨hs.readEnd, fun h => ?_⟩
        have := (hlive h).not.mp (by simp [Finset.card_eq_zero.mp hcard])
        simpa [World.setMem] using this
      writeEnd := fun _ => hs.writeEnd
      nonblocking := fun _ => hs.nonblocking }

/-! ## Epoll sets and registrations -/

theorem mem_setEpoll {h h' : Handler} {fd : Fd} {e : Option EpollEntry} :
    (s.setEpoll h fd e).epoll h' fd = if h' = h then e else s.epoll h' fd := by
  by_cases hh : h' = h
  · subst hh
    simp [World.setEpoll]
  · simp [World.setEpoll, hh]

/-- `EPOLL_CTL_ADD` turns the count that was acquired for it into a user of the pipe. -/
theorem safe_epollAdd {h : Handler} {e : EpollEntry} :
    StopSafe strict t (perform (.epollAdd h r e)) (g.hold c (.inUse p r w n 1 0 []))
      fun x g' => match x with
        | .ok _ => g' = g.hold c (.inUse p r w n 0 1 [])
        | .error _ => g' = g.hold c (.inUse p r w n 1 0 []) := by
  refine safe_held fun s _ hs _ => ⟨trivial, fun x s' _ he => ?_⟩
  cases x with
  | error e =>
    obtain rfl := Option.some.inj he
    exact ⟨.inUse p r w n 1 0 [], .setErrno, hs.setErrno, .inl rfl, rfl⟩
  | ok u =>
    obtain ⟨⟨-, hfree⟩, rfl⟩ := of_guard he
    refine ⟨.inUse p r w n 0 1 [], .setEpoll (.inl hs.readEnd) hs.spe, ?_, .inl rfl, rfl⟩
    obtain ⟨live, hlive, hn, hreg⟩ := hs.users
    have hnew : h ∉ live := by simp [hlive, hfree]
    exact { hs with
      users := by
        refine ⟨insert h live, fun h' => ?_, ?_, ?_⟩
        · rw [mem_setEpoll, Finset.mem_insert, hlive]
          by_cases hh : h' = h <;> simp [hh]
        · rw [Finset.card_insert_of_notMem hnew]
          simp only [World.setEpoll]
          omega
        · rw [Finset.card_insert_of_notMem hnew]
          simp only [World.setEpoll]
          omega }

/-- `EPOLL_CTL_DEL` turns a user of the pipe into a count that has to be released. -/
theorem safe_epollDel {h : Handler} :
    StopSafe strict t (perform (.epollDel h r)) (g.hold c (.inUse p r w n 0 0 []))
      fun x g' => match x with
        | .ok _ => g' = g.hold c (.inUse p r w n 1 (-1) [])
        | .error _ => g' = g.hold c (.inUse p r w n 0 0 []) := by
  refine safe_held fun s _ hs _ => ⟨trivial, fun x s' _ he => ?_⟩
  cases x with
  | error e =>
    obtain rfl := Option.some.inj he
    exact ⟨.inUse p r w n 0 0 [], .setErrno, hs.setErrno, .inl rfl, rfl⟩
  | ok u =>
    obtain ⟨hin, rfl⟩ := of_guard he
    refine ⟨.inUse p r w n 1 (-1) [], .setEpoll (.inl hs.readEnd) hs.spe, ?_, .inl rfl, rfl⟩
    obtain ⟨live, hlive, hn, hreg⟩ := hs.users
    have hold : h ∈ live := by simp [hlive, hin]
    have hpos := Finset.card_pos.mpr ⟨h, hold⟩
    exact { hs with
      users := by
        refine ⟨live.erase h, fun h' => ?_, ?_, ?_⟩
        · rw [mem_setEpoll, Finset.mem_erase, hlive]
          by_cases hh : h' = h <;> simp [hh]
        · rw [Finset.card_erase_of_mem hold]
          simp only [World.setEpoll]
          omega
        · rw [Finset.card_erase_of_mem hold]
          simp only [World.setEpoll]
          omega }

/-- Without a pipe there is nothing to delete. -/
theorem safe_epollDel_shut {h : Handler} :
    StopSafe strict t (perform (.epollDel h (-1))) (g.hold c .shut) fun x g' =>
      g' = g.hold c .shut ∧ ∃ e, x = .error e := by
  refine safe_held fun s hf hs _ => ⟨trivial, fun x s' _ he => ?_⟩
  cases x with
  | error e =>
    obtain rfl := Option.some.inj he
    exact ⟨.shut, .setErrno, hs.setErrno, .inl rfl, rfl, e, rfl⟩
  | ok u =>
    obtain ⟨hin, -⟩ := of_guard he
    exact absurd rfl (hf.ne_neg (hf.sets h _ hin))

theorem safe_note_registered :
    StopSafe strict t (note (.registered c)) (g.hold c (.inUse p r w n 0 1 [])) fun _ g' =>
      g' = g.hold c (.inUse p r w n 0 0 []) := by
  refine safe_held fun s _ hs _ => ⟨trivial, fun _ s' _ he => ?_⟩
  obtain rfl := Option.some.inj he
  refine ⟨.inUse p r w n 0 0 [], .history (fun c' hne => by simp [hne]) (fun _ _ => rfl) rfl rfl,
    ?_, .inl rfl, rfl⟩
  obtain ⟨live, hlive, hn, hreg⟩ := hs.users
  exact { hs with
    users := ⟨live, hlive, hn, by simp only [Function.update_self]; push_cast; omega⟩ }

theorem safe_note_deregistered :
    StopSafe strict t (note (.deregistered c)) (g.hold c (.inUse p r w n 1 (-1) [])) fun _ g' =>
      g' = g.hold c (.inUse p r w n 1 0 []) := by
  refine safe_held fun s _ hs _ => ⟨trivial, fun _ s' _ he => ?_⟩
  obtain rfl := Option.some.inj he
  refine ⟨.inUse p r w n 1 0 [], .history (fun _ _ => rfl) (fun c' hne => by simp [hne]) rfl rfl,
    ?_, .inl rfl, rfl⟩
  obtain ⟨live, hlive, hn, hreg⟩ := hs.users
  exact { hs with
    users := ⟨live, hlive, hn, by simp only [Function.update_self]; push_cast; omega⟩ }

/-! ## Reading -/

/-- A read adds to what has been read of the stop info. -/
theorem safe_read {m : Nat} :
    StopSafe strict t (perform (.read r m)) (g.hold c (.inUse p r w n 0 0 got))
      fun x g' => match x with
        | .ok bytes => bytes.length ≤ m ∧ g' = g.hold c (.inUse p r w n 0 0 (got ++ bytes))
        | .error e => (strict → e = .EAGAIN) ∧ g' = g.hold c (.inUse p r w n 0 0 got) := by
  refine safe_held fun s _ hs _ => ⟨⟨p, hs.readEnd, hs.nonblocking⟩, fun x s' ho he => ?_⟩
  cases x with
  | error e =>
    simp only [exec, hs.readEnd] at he
    obtain ⟨-, rfl⟩ := of_guard he
    exact ⟨.inUse p r w n 0 0 got, .setErrno, hs.setErrno, .inl rfl, ho, rfl⟩
  | ok bytes =>
    simp only [exec, hs.readEnd] at he
    obtain ⟨⟨-, hle, hpre⟩, rfl⟩ := of_guard he
    refine ⟨.inUse p r w n 0 0 (got ++ bytes), .setPipe hs.spe hs.spe, ?_, .inl rfl, hle, rfl⟩
    exact { hs with
      spe := by simpa [World.setPipe] using hs.spe
      past := past_setPipe hs.past
      closedR := by simpa [World.setPipe] using hs.closedR
      closedW := by simpa [World.setPipe] using hs.closedW
      nonblocking := by simpa [World.setPipe] using hs.nonblocking
      stream := fun hst => by
        obtain ⟨hsized, heq⟩ := hs.stream hst
        obtain ⟨rest, hrest⟩ := hpre
        simp only [World.setPipe, Function.update_self]
        refine ⟨hsized, ?_⟩
        rw [heq, ← hrest]
        simp }

/-- The read of a whole stop info is complete. -/
theorem safe_noteStopInfo (hgot : strict → got.length = stopInfoSize) :
    StopSafe strict t (perform (.noteStopInfo r got)) (g.hold c (.inUse p r w n 0 0 got))
      fun _ g' => g' = g.hold c (.inUse p r w n 0 0 []) := by
  refine safe_held fun s _ hs _ => ⟨trivial, fun _ s' _ he => ?_⟩
  simp only [exec, hs.readEnd, Option.some.injEq] at he
  obtain rfl := he
  refine ⟨.inUse p r w n 0 0 [], .setPipe hs.spe hs.spe, ?_, .inl rfl, rfl⟩
  exact { hs with
    spe := by simpa [World.setPipe] using hs.spe
    past := past_setPipe hs.past
    closedR := by simpa [World.setPipe] using hs.closedR
    closedW := by simpa [World.setPipe] using hs.closedW
    nonblocking := by simpa [World.setPipe] using hs.nonblocking
    stream := fun hst => by
      obtain ⟨hsized, heq⟩ := hs.stream hst
      simp only [World.setPipe, Function.update_self]
      refine ⟨by simp [hsized, hgot hst], ?_⟩
      simpa using heq }

theorem safe_poll {fd : Fd} :
    StopSafe strict t (perform (.poll fd)) g fun x g' =>
      g' = g ∧ ∀ e, x = .error e → strict → e = .EINTR := by
  refine .perform fun γ s hi hg => ⟨trivial, fun x s' ho he => ⟨g, ?_, rfl, ?_⟩⟩
  · subst hg
    have hq := quiet_of_harmless (show (Cmd.poll fd).Harmless from trivial) he
    exact hi.quiet hq rfl rfl fun fd hfd => hq.isSource (hi.source t fd hfd)
  · rintro e rfl hst
    exact ho hst

/-! ## Taking and releasing the lock -/

/-- What may be left behind: a stage to rest in, up to bytes that a reader gave up on. -/
inductive Held.Leaves (strict : Prop) : Held → Prop
  | shut : Leaves strict .shut
  | inUse {p : PipeId} {r w : Fd} {n : Int} {got : List UInt8} (h : strict → got = []) :
      Leaves strict (.inUse p r w n 0 0 got)

theorem Held.Rest.leaves (h : φ.Rest) : φ.Leaves strict := by
  cases h with
  | shut => exact .shut
  | inUse => exact .inUse fun _ => rfl

theorem Held.Leaves.rest (h : φ.Leaves strict) (hs : Shape strict c φ s) :
    ∃ φ' : Held, φ'.Rest ∧ Shape strict c φ' s ∧ φ'.writeEnd = φ.writeEnd := by
  cases h with
  | shut => exact ⟨.shut, .shut, hs, rfl⟩
  | @inUse p r w n got hgot =>
    refine ⟨.inUse p r w n 0 0 [], .inUse hs.pos, ?_, rfl⟩
    exact { hs with stream := fun hst => hgot hst ▸ hs.stream hst }

theorem keeps_setOwner {m : Mutex} {o : Option Tid} (c : Spe) : Keeps c s (s.setOwner m o) :=
  .of_same (fun _ => rfl) rfl rfl rfl (fun _ _ _ _ => ⟨rfl, fun _ => rfl⟩) rfl rfl rfl

/-- Whoever gets the lock finds the pipe at rest, and in use if it is the pipe of its own run. -/
theorem safe_lock (hg : g.held = none) :
    StopSafe strict t (stopEventLock c) g fun _ g' =>
      ∃ φ : Held, φ.Rest ∧ g' = g.hold c φ ∧
        ∀ p fd, g.run = some (c, p, fd) → φ.writeEnd = some (p, fd) := by
  refine .perform fun γ s hi hgt => ⟨trivial, fun _ s' _ he => ?_⟩
  obtain ⟨hfree, rfl⟩ := of_guard he
  obtain ⟨φ, hφ⟩ := hi.stage c
  refine ⟨g.hold c φ, ?_, φ, hφ.rest hfree, rfl, fun p fd hr => (hφ.run t p fd (hgt ▸ hr)).1⟩
  have hnone : ∀ u ψ, (γ u).held ≠ some (c, ψ) := fun u ψ hu => by
    have := (hφ.holder u).mpr ⟨ψ, hu⟩
    simp [hfree] at this
  refine hi.on c φ ⟨hi.files.numbers, hi.files.sets, hi.files.ends, hi.files.arrays⟩
    (fun _ h => h) (by simp [hgt]) (fun c' _ => keeps_setOwner c')
    (fun c' hne => by simp [World.setOwner, hne]) (fun c' hne ψ => by simp [hgt, hg, Ne.symm hne])
    (fun _ _ x => by simp [hgt]) (fun _ _ => rfl) (.inl (by simp [hgt])) ?_
  refine ⟨hφ.shape.keeps (keeps_setOwner c), fun hn => ?_, fun u => ?_, fun u ψ hu => ?_, hφ.nodup,
    fun u => ?_, fun u p fd hu => ?_⟩
  · simp [World.setOwner] at hn
  · by_cases hut : u = t
    · subst hut
      simp [World.setOwner]
    · simp [World.setOwner, hut, hnone u, Ne.symm hut]
  · by_cases hut : u = t
    · subst hut
      simpa using hu.symm
    · exact absurd (by simpa [hut] using hu) (hnone u ψ)
  · by_cases hut : u = t
    · subst hut
      simp [World.setOwner, hφ.runs, hgt]
    · simp [World.setOwner, hφ.runs, hut]
  · by_cases hut : u = t
    · subst hut
      exact hφ.run u p fd (by simpa [hgt] using hu)
    · exact hφ.run u p fd (by simpa [hut] using hu)

theorem safe_unlock (hg : g.held = none) (hl : φ.Leaves strict) :
    StopSafe strict t (stopEventUnlock c) (g.hold c φ) fun _ g' => g' = g := by
  refine .perform fun γ s hi hgt => ⟨trivial, fun _ s' _ he => ⟨g, ?_, rfl⟩⟩
  obtain ⟨ho, rfl⟩ := of_guard he
  have hφ := hi.held (show (γ t).held = some (c, φ) by simp [hgt])
  obtain ⟨ψ, hrest, hshape, hwr⟩ := hl.rest hφ.shape
  have hothers : ∀ u, u ≠ t → ∀ ψ, (γ u).held ≠ some (c, ψ) := fun u hut ψ hu => by
    have := (hφ.holder u).mpr ⟨ψ, hu⟩
    rw [ho] at this
    exact hut (Option.some.inj this).symm
  refine hi.on c ψ ⟨hi.files.numbers, hi.files.sets, hi.files.ends, hi.files.arrays⟩
    (fun _ h => h) (by simp [hgt]) (fun c' _ => keeps_setOwner c')
    (fun c' hne => by simp [World.setOwner, hne]) (fun c' hne ψ => by simp [hgt, hg, Ne.symm hne])
    (fun _ _ x => by simp [hgt]) (fun _ _ => rfl) (.inl (by simp [hgt])) ?_
  refine ⟨hshape.keeps (keeps_setOwner c), fun _ => hrest, fun u => ?_, fun u ψ hu => ?_, hφ.nodup,
    fun u => ?_, fun u p fd hu => ?_⟩
  · by_cases hut : u = t
    · subst hut
      simp [World.setOwner, hg]
    · simp [World.setOwner, hut, hothers u hut]
  · by_cases hut : u = t
    · subst hut
      simp [hg] at hu
    · exact absurd (by simpa [hut] using hu) (hothers u hut ψ)
  · by_cases hut : u = t
    · subst hut
      simp [World.setOwner, hφ.runs, hgt]
    · simp [World.setOwner, hφ.runs, hut]
  · rw [hwr]
    by_cases hut : u = t
    · subst hut
      exact hφ.run u p fd (by simpa [hgt] using hu)
    · exact hφ.run u p fd (by simpa [hut] using hu)

/-! ## Runs -/

/-- The run remembers the pipe whose count it has acquired. -/
theorem safe_note_runAcquired (hg : g.run = none) :
    StopSafe strict t (note (.runAcquired c w)) (g.hold c (.inUse p r w n 1 0 [])) fun _ g' =>
      g' = { g with run := some (c, p, w) }.hold c (.inUse p r w n 0 0 []) := by
  refine .perform fun γ s hi hgt => ⟨trivial, fun _ s' _ he => ⟨_, ?_, rfl⟩⟩
  have hφ := hi.held (show (γ t).held = some (c, .inUse p r w n 1 0 []) by simp [hgt])
  have hs : InUse strict c p r w n 1 0 [] s := hφ.shape
  have ho := hφ.owner (t := t) (by simp [hgt])
  have hnot : t ∉ s.hist.runs c := by simp [hφ.runs, hgt, hg]
  simp only [machine, exec, Note.record, hs.writeEnd, Option.map_some, Option.some.injEq] at he
  subst he
  refine hi.on c (.inUse p r w n 0 0 [])
    ⟨hi.files.numbers, hi.files.sets, hi.files.ends, hi.files.arrays⟩ (fun _ h => h) (by simp [hgt])
    (fun c' hne => .of_same (fun _ => rfl) rfl rfl rfl (fun _ _ _ _ => ⟨rfl, fun _ => rfl⟩) rfl rfl
      (by simp [hne]))
    (fun _ _ => rfl) (fun c' hne ψ => by simp [hgt, Ne.symm hne])
    (fun c' hne x => by simp [hgt, hg, Ne.symm hne]) (fun u hu => ?_) (.inr (.inl (by simp [hgt, hg])))
    ?_
  · rcases hu with hu | hu
    · simp [hu]
    · simp [hgt, hg] at hu
  refine ⟨?_, fun hn => ?_, fun u => ?_, fun u ψ hu => ?_, ?_, fun u => ?_, fun u q fd hu => ?_⟩
  · obtain ⟨live, hlive, hn, hreg⟩ := hs.users
    exact { hs with
      users := ⟨live, hlive, by simp only [Function.update_self, List.length_cons]; omega, hreg⟩ }
  · rw [ho] at hn
    cases hn
  · by_cases hut : u = t
    · subst hut
      simp [ho]
    · simp [hut, hφ.holder]
  · by_cases hut : u = t
    · subst hut
      simpa using hu.symm
    · have := (hφ.holder u).mpr ⟨ψ, by simpa [hut] using hu⟩
      rw [ho] at this
      exact absurd (Option.some.inj this).symm hut
  · simpa using ⟨hnot, hφ.nodup⟩
  · by_cases hut : u = t
    · subst hut
      simp
    · simp [hut, hφ.runs]
  · by_cases hut : u = t
    · subst hut
      obtain ⟨rfl, rfl⟩ : p = q ∧ w = fd := by simpa using hu
      simp [Held.writeEnd]
    · obtain ⟨hwr, hsaw⟩ := hφ.run u q fd (by simpa [hut] using hu)
      exact ⟨hwr, by simpa [hut] using hsaw⟩

/-- The run is over, and its count is left to be released. -/
theorem safe_note_runReleased (hg : g.run = some (c, p, w)) :
    StopSafe strict t (note (.runReleased c)) (g.hold c (.inUse p r w n 0 0 [])) fun _ g' =>
      g' = { g with run := none }.hold c (.inUse p r w n 1 0 []) := by
  refine .perform fun γ s hi hgt => ⟨trivial, fun _ s' _ he => ⟨_, ?_, rfl⟩⟩
  have hφ := hi.held (show (γ t).held = some (c, .inUse p r w n 0 0 []) by simp [hgt])
  have hs : InUse strict c p r w n 0 0 [] s := hφ.shape
  have ho := hφ.owner (t := t) (by simp [hgt])
  have hin : t ∈ s.hist.runs c := by simp [hφ.runs, hgt, hg]
  obtain rfl := Option.some.inj he
  refine hi.on c (.inUse p r w n 1 0 [])
    ⟨hi.files.numbers, hi.files.sets, hi.files.ends, hi.files.arrays⟩ (fun _ h => h) (by simp [hgt])
    (fun c' hne => .of_same (fun _ => rfl) rfl rfl rfl (fun _ _ _ _ => ⟨rfl, fun _ => rfl⟩) rfl rfl
      (by simp [hne]))
    (fun _ _ => rfl) (fun c' hne ψ => by simp [hgt, Ne.symm hne])
    (fun c' hne x => by simp [hgt, hg, Ne.symm hne]) (fun u _ => rfl) (.inr (.inr (by simp))) ?_
  refine ⟨?_, fun hn => ?_, fun u => ?_, fun u ψ hu => ?_, ?_, fun u => ?_, fun u q fd hu => ?_⟩
  · obtain ⟨live, hlive, hn, hreg⟩ := hs.users
    have hlen := List.length_erase_of_mem hin
    have hpos := List.length_pos_of_mem hin
    exact { hs with
      users := ⟨live, hlive, by simp only [Function.update_self]; omega, hreg⟩ }
  · rw [ho] at hn
    cases hn
  · by_cases hut : u = t
    · subst hut
      simp [ho]
    · simp [hut, hφ.holder]
  · by_cases hut : u = t
    · subst hut
      simpa using hu.symm
    · have := (hφ.holder u).mpr ⟨ψ, by simpa [hut] using hu⟩
      rw [ho] at this
      exact absurd (Option.some.inj this).symm hut
  · simpa using hφ.nodup.erase t
  · by_cases hut : u = t
    · subst hut
      simp [hφ.nodup.mem_erase_iff]
    · simp [hut, hφ.runs, List.mem_erase_of_ne hut]
  · by_cases hut : u = t
    · subst hut
      simp at hu
    · exact hφ.run u q fd (by simpa [hut] using hu)

/-- Writing to a pipe leaves its stage alone, whoever holds the lock. -/
theorem Shape.write {info : StopInfo} (hs : Shape strict c φ s) (hw : φ.writeEnd = some (p, w)) :
    Shape strict c φ (s.setPipe p { s.pipes p with
      queue := (s.pipes p).queue ++ info.bytes
      written := (s.pipes p).written ++ [info] }) := by
  cases φ with
  | shut => simp [Held.writeEnd] at hw
  | turning => simp [Held.writeEnd] at hw
  | inUse q r w' n extra adj got =>
    obtain ⟨rfl, rfl⟩ : q = p ∧ w' = w := by simpa [Held.writeEnd] using hw
    exact { hs with
      spe := by simpa [World.setPipe] using hs.spe
      past := past_setPipe hs.past
      closedR := by simpa [World.setPipe] using hs.closedR
      closedW := by simpa [World.setPipe] using hs.closedW
      nonblocking := by simpa [World.setPipe] using hs.nonblocking
      stream := fun hst => by
        obtain ⟨hsized, heq⟩ := hs.stream hst
        simp only [World.setPipe, Function.update_self]
        refine ⟨hsized, ?_⟩
        simp [heq] }

theorem Shape.writeEnd (hs : Shape strict c φ s) (hw : φ.writeEnd = some (p, w)) :
    s.fds w = some (.pipeW p) ∧ (s.pipes p).spe = c := by
  cases φ with
  | shut => simp [Held.writeEnd] at hw
  | turning => simp [Held.writeEnd] at hw
  | inUse q r w' n extra adj got =>
    obtain ⟨rfl, rfl⟩ : q = p ∧ w' = w := by simpa [Held.writeEnd] using hw
    exact ⟨InUse.writeEnd hs, InUse.spe hs⟩

theorem safe_write {bytes : List UInt8} (hg : g.run = some (c, p, w)) :
    StopSafe strict t (perform (.write w bytes)) g fun _ g' => g' = g := by
  refine .perform fun γ s hi hgt => ?_
  obtain ⟨φ, hφ⟩ := hi.stage c
  obtain ⟨hwr, hsaw⟩ := hφ.run t p w (by rw [hgt, hg])
  obtain ⟨hw, hspe⟩ := hφ.shape.writeEnd hwr
  refine ⟨⟨p, hsaw, hw⟩, fun x s' _ he => ⟨g, ?_, rfl⟩⟩
  subst hgt
  cases x with
  | error e =>
    obtain rfl := Option.some.inj he
    have hq : Quiet s (s.setErrno t e) := .fields ..
    exact hi.quiet hq rfl rfl fun fd hfd => hq.isSource (hi.source t fd hfd)
  | ok k =>
    simp only [machine, exec, hw] at he
    split at he
    · next h =>
      obtain rfl := Option.some.inj he
      refine hi.on c φ ⟨hi.files.numbers, hi.files.sets, hi.files.ends,
        hi.files.arrays⟩ (fun _ h => h) rfl (fun c' hne => keeps_setPipe hspe hspe hne)
        (fun _ _ => rfl) (fun _ _ _ => Iff.rfl) (fun _ _ _ => Iff.rfl) (fun _ _ => rfl) (.inl rfl) ?_
      rw [Function.update_eq_self]
      exact { hφ with shape := (hφ.shape.write hwr : Shape strict c φ (s.setPipe p { s.pipes p with
        queue := (s.pipes p).queue ++ (⟨bytes, h.1⟩ : StopInfo).bytes
        written := (s.pipes p).written ++ [⟨bytes, h.1⟩] })) }
    · cases he

/-! ## Sources -/

/-- A descriptor that the cache holds, or that has just been opened, is a spufs file. -/
theorem safe_load_array {d : FdName} :
    StopSafe strict t (load (.speFdsArray c d)) g fun v g' =>
      v = -1 ∧ g' = g ∨ g' = { g with source := some v } := by
  refine .perform fun γ s hi hgt => ⟨trivial, fun v s' _ he => ?_⟩
  obtain ⟨rfl, rfl⟩ := of_guard he
  subst hgt
  by_cases hv : s.mem (.speFdsArray c d) = -1
  · exact ⟨γ t, hi.quiet (.refl s) rfl rfl (hi.source t), .inl ⟨hv, rfl⟩⟩
  · refine ⟨{ γ t with source := some (s.mem (.speFdsArray c d)) },
      hi.quiet (.refl s) rfl rfl fun fd hfd => ?_, .inr rfl⟩
    obtain rfl := Option.some.inj hfd
    exact hi.files.arrays c d hv

theorem safe_openat {d : FdName} :
    StopSafe strict t (perform (.openat c d)) g fun x g' => match x with
      | .ok fd => g' = { g with source := some fd }
      | .error _ => g' = g := by
  refine .perform fun γ s hi hgt => ⟨trivial, fun x s' _ he => ?_⟩
  have hq := quiet_of_harmless (show (Cmd.openat c d).Harmless from trivial) he
  subst hgt
  cases x with
  | error e => exact ⟨γ t, hi.quiet hq rfl rfl fun fd hfd => hq.isSource (hi.source t fd hfd), rfl⟩
  | ok fd =>
    refine ⟨{ γ t with source := some fd }, hi.quiet hq rfl rfl fun fd' hfd => ?_, rfl⟩
    obtain rfl := Option.some.inj hfd
    obtain ⟨-, rfl⟩ := of_guard he
    exact ⟨c, d, by simp [World.openFd]⟩

theorem safe_store_array {d : FdName} {v : Fd} (hv : v = -1 ∨ g.source = some v) :
    StopSafe strict t (store (.speFdsArray c d) v) g fun _ g' => g' = g := by
  refine .perform fun γ s hi hgt => ⟨trivial, fun _ s' _ he => ⟨g, ?_, rfl⟩⟩
  obtain rfl := Option.some.inj he
  subst hgt
  refine hi.quiet ⟨fun _ => .inl rfl, fun _ _ => .inl rfl, fun c' d' => ?_, by simp [World.setMem],
    by simp [World.setMem], rfl, rfl, fun _ => rfl, rfl, rfl, rfl, rfl⟩ rfl rfl (hi.source t)
  by_cases hl : Loc.speFdsArray c' d' = .speFdsArray c d
  · refine .inr ?_
    simp only [World.setMem, hl, Function.update_self]
    exact hv.imp id (hi.source t v)
  · exact .inl (by simp only [World.setMem, ne_eq, hl, not_false_eq_true, Function.update_of_ne])

/-- Epoll sets at a spufs file have nothing to do with any pipe. -/
theorem Quiet.setEpoll {h : Handler} {fd : Fd} {e : Option EpollEntry} (hs : IsSource s fd) :
    Quiet s (s.setEpoll h fd e) := by
  constructor <;> simp [World.setEpoll]
  intro h' fd'
  by_cases hfd : fd' = fd
  · exact .inr (hfd ▸ hs)
  · by_cases hh : h' = h
    · subst hh
      exact .inl (by simp [hfd])
    · exact .inl (by simp [hh])

theorem safe_epollAdd_source {h : Handler} {fd : Fd} {e : EpollEntry} (hg : g.source = some fd) :
    StopSafe strict t (perform (.epollAdd h fd e)) g fun _ g' => g' = g := by
  refine .perform fun γ s hi hgt => ⟨trivial, fun x s' _ he => ⟨g, ?_, rfl⟩⟩
  subst hgt
  have hs := hi.source t fd hg
  have hq : Quiet s s' := by
    cases x with
    | error e =>
      obtain rfl := Option.some.inj he
      exact .fields ..
    | ok u =>
      obtain ⟨-, rfl⟩ := of_guard he
      exact .setEpoll hs
  exact hi.quiet hq rfl rfl fun fd hfd => hq.isSource (hi.source t fd hfd)

theorem safe_epollDel_source {h : Handler} {fd : Fd} (hg : g.source = some fd) :
    StopSafe strict t (perform (.epollDel h fd)) g fun _ g' => g' = g := by
  refine .perform fun γ s hi hgt => ⟨trivial, fun x s' _ he => ⟨g, ?_, rfl⟩⟩
  subst hgt
  have hs := hi.source t fd hg
  have hq : Quiet s s' := by
    cases x with
    | error e =>
      obtain rfl := Option.some.inj he
      exact .fields ..
    | ok u =>
      obtain ⟨-, rfl⟩ := of_guard he
      exact .setEpoll hs
  exact hi.quiet hq rfl rfl fun fd hfd => hq.isSource (hi.source t fd hfd)

end

end LibSpe2
