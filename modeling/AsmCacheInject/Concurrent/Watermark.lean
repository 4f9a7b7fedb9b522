import AsmCacheInject.Cache.Stats
import AsmCacheInject.Concurrent.Alone
import AsmCacheInject.Concurrent.Exhaustion
import AsmCacheInject.Flush.Signals

namespace AsmCacheInject.Concurrent

open AsmCacheInject.Cache
open AsmCacheInject.Data
open AsmCacheInject.Engine
open AsmCacheInject.Flush

variable {setup : Setup}

/-! The dirty watermark.  A write looks at the table after its block is marked,
and wakes the flush thread when the watermark is reached; reads and the flush
thread only take the ratio down.  So the thread does not wait with an empty
channel while the watermark is reached. -/

/-- The client has marked a block and not yet decided whether to wake. -/
def Pc.alert : Pc setup → Bool
  | .stats _ _ _ => true
  | .wakeForWrite _ _ _ => true
  | _ => false

/-- Entries that the client is about to put into the table, or has just taken
out to make room. -/
def Pc.opening : Pc setup → Nat
  | .freeVictim _ _ => 1
  | .reallocate _ => 1
  | .fetch _ _ => 1
  | .insertRead _ _ => 1
  | .fill _ _ _ => 1
  | .insertWrite _ _ _ => 1
  | _ => 0

def Pc.marks : Pc setup → Bool
  | .markDirty _ _ => true
  | .insertWrite _ _ _ => true
  | _ => false

theorem Miss.opening_filling (miss : Miss setup) (slot : Nat) :
    (miss.filling slot).opening = 1 := by
  cases miss <;> rfl

theorem Call.opening_enter (call : Call setup) : call.enter.opening = 0 :=
  call.enter_induction (fun _ => rfl) (fun _ => rfl) fun _ _ => rfl

section Step

variable {choice : Choice setup} {engine nextEngine : CacheEngine setup}
variable {pc next : Pc setup}

theorem ClientStep.ratio (hstep : ClientStep choice engine pc next nextEngine)
    (hcurrent : pc.Current engine.table.slotOf) (hio : choice.io.succeeds = true)
    (hfree : ∀ miss, pc = .reallocate miss → engine.freeList ≠ [])
    (hmarks : pc.marks = false) :
    nextEngine.table.dirty ⊆ engine.table.dirty ∧
      engine.table.cached.card + pc.opening ≤
        nextEngine.table.cached.card + next.opening := by
  cases hstep with
  | lookupHit hslot =>
      refine ⟨?_, ?_⟩
      · intro lba hdirty
        simpa using hdirty
      · simp [LbaTable.cached, Pc.opening]
  | takeFree hfree => exact ⟨subset_rfl, by rw [Miss.opening_filling]; simp [Pc.opening]⟩
  | @removeVictim miss victim =>
      refine ⟨?_, ?_⟩
      · intro lba hdirty
        simp only [LbaTable.mem_dirty, LbaTable.dirtyOf_remove] at hdirty ⊢
        split at hdirty
        · cases hdirty
        · exact hdirty
      · have hvictim : victim.lba ∈ engine.table.cached := by
          rw [LbaTable.mem_cached, hcurrent.2]
          exact Option.some_ne_none _
        have herase : (engine.table.remove victim.lba).2.cached =
            engine.table.cached.erase victim.lba := by
          ext lba
          simp only [LbaTable.mem_cached, LbaTable.slotOf_remove,
            Finset.mem_erase]
          split <;> simp_all
        have hcard := Finset.card_erase_add_one hvictim
        simp only [herase, Pc.opening]
        omega
  | retake hslot => exact ⟨subset_rfl, by rw [Miss.opening_filling]; simp [Pc.opening]⟩
  | exhausted hempty => exact absurd hempty (hfree _ rfl)
  | fetchTorn hfail => exact absurd hfail (IoOutcome.ne_fail hio _ _)
  | @insertRead lba slot =>
      refine ⟨?_, ?_⟩
      · intro other hdirty
        simp only [LbaTable.mem_dirty, LbaTable.dirtyOf_insert] at hdirty ⊢
        split at hdirty
        · cases hdirty
        · exact hdirty
      · have habsent : lba ∉ engine.table.cached := by
          rw [LbaTable.mem_cached, not_not]
          exact hcurrent
        have hinsert : (engine.table.insert lba (.new choice.now lba slot)).2.cached =
            insert lba engine.table.cached := by
          ext other
          simp only [LbaTable.mem_cached, LbaTable.slotOf_insert,
            Finset.mem_insert]
          split <;> simp_all
        have hcard := Finset.card_insert_of_notMem habsent
        simp only [hinsert, Pc.opening]
        omega
  | markDirty => cases hmarks
  | insertWrite => cases hmarks
  | _ => exact ⟨subset_rfl, le_rfl⟩

theorem ClientStep.alert_of_marks
    (hstep : ClientStep choice engine pc next nextEngine)
    (hmarks : pc.marks = true) : next.alert = true := by
  cases hstep with
  | markDirty => rfl
  | insertWrite => rfl
  | _ => cases hmarks

theorem ClientStep.wakes (hstep : ClientStep choice engine pc next nextEngine) :
    nextEngine.flusher = engine.flusher.map FlushChannel.wake ∨
      nextEngine.flusher = engine.flusher ∧
        ∀ lba buf wasUpdate, pc ≠ .wakeForWrite lba buf wasUpdate := by
  cases hstep with
  | wakeForVictim => exact .inl rfl
  | wakeForWrite => exact .inl rfl
  | _ => exact .inr ⟨rfl, by simp⟩

/-- The free slot of a victim is still there at the second `allocate`. -/
theorem ClientStep.reclaim (hstep : ClientStep choice engine pc next nextEngine)
    {miss : Miss setup} (hnext : next = .reallocate miss) :
    nextEngine.freeList ≠ [] := by
  cases hstep with
  | freeVictim => exact List.cons_ne_nil _ _
  | @takeFree other slot rest hfree => cases other <;> cases hnext
  | @retake other slot rest hfree => cases other <;> cases hnext
  | _ => cases hnext

end Step

section Flush

variable {choice : Choice setup} {engine nextEngine : CacheEngine setup}
variable {pc next : FlusherPc setup}

theorem FlusherStep.dirty_subset
    (hstep : FlusherStep choice engine pc next nextEngine) :
    nextEngine.table.dirty ⊆ engine.table.dirty := by
  cases hstep with
  | @cleaned signal target rest flushed =>
      intro lba hdirty
      simp only [LbaTable.mem_dirty, LbaTable.dirtyOf_markClean] at hdirty ⊢
      split at hdirty
      · obtain ⟨_, _, hfalse⟩ := Option.map_eq_some_iff.mp hdirty
        cases hfalse
      · exact hdirty
  | _ => exact subset_rfl

/-- The flush thread comes to its snapshot, takes it, or clears flags it has
left to clear. -/
theorem FlusherStep.attends (hstep : FlusherStep choice engine pc next nextEngine)
    (hkeyed : engine.table.SelfKeyed) (hio : choice.io.succeeds = true) :
    (∃ signal, next = .snapshot signal) ∨
      (∀ lba ∈ nextEngine.table.dirty, lba ∈ next.lbas) ∨
      nextEngine.flusher = engine.flusher ∧
        ((∀ lba ∈ engine.table.dirty, lba ∈ pc.lbas) →
          ∀ lba ∈ nextEngine.table.dirty, lba ∈ next.lbas) ∧
        ∀ signal, pc ≠ .snapshot signal := by
  cases hstep with
  | disconnected hchannel => exact .inl ⟨_, rfl⟩
  | received hchannel => exact .inl ⟨_, rfl⟩
  | snapshot =>
      right
      left
      intro lba hdirty
      rw [FlusherPc.lbas_resume]
      exact LbaTable.dirty_mem_dirtyEntries hkeyed choice.order lba
        (LbaTable.mem_dirty.mp hdirty)
  | written hok => exact .inr (.inr ⟨rfl, id, by simp⟩)
  | torn hfail => exact absurd hfail (IoOutcome.ne_fail hio _ _)
  | @cleaned signal target rest flushed =>
      refine .inr (.inr ⟨rfl, ?_, by simp⟩)
      intro hcovered lba hdirty
      simp only [LbaTable.mem_dirty, LbaTable.dirtyOf_markClean] at hdirty
      rw [FlusherPc.lbas_resume]
      split at hdirty
      · obtain ⟨_, _, hfalse⟩ := Option.map_eq_some_iff.mp hdirty
        cases hfalse
      · next hne =>
        have hmem := hcovered lba (LbaTable.mem_dirty.mpr hdirty)
        exact (List.mem_cons.mp hmem).resolve_left hne
  | synced => exact .inr (.inr ⟨rfl, id, by simp⟩)
  | exit hstop => exact .inr (.inr ⟨rfl, id, by simp⟩)
  | again hsignal hstop => exact .inr (.inr ⟨rfl, id, by simp⟩)

end Flush

namespace Machine

variable {machine next : Machine setup 1} {action : Action setup 1}

theorem step_client {n : Nat} {machine next : Machine setup n} {thread : Fin n}
    {choice : Choice setup}
    (hstep : machine.step (.client thread choice) = some next) :
    ∃ pc engine, (machine.client thread).step choice machine.engine =
        some (pc, engine) ∧
      next = { machine with
        engine := engine
        client := Function.update machine.client thread pc } := by
  simp only [step] at hstep
  split at hstep
  · cases hstep
  · next pc engine hclient =>
    cases hstep
    exact ⟨pc, engine, hclient, rfl⟩

/-- The watermark is reached, counting the entry that is being replaced. -/
def Pressing (machine : Machine setup 1) : Prop :=
  0 < machine.engine.table.dirty.card ∧
    setup.schedule.dirtyWatermark.reached machine.engine.table.dirty.card
      (machine.engine.table.cached.card + (machine.client 0).opening) = true

/-- Somebody will see to the dirty blocks: a signal is pending, the client is
about to look at the table, the thread is about to take its snapshot, or what
is dirty is in the snapshot it works on. -/
def Attended (machine : Machine setup 1) (channel : FlushChannel) : Prop :=
  channel.pending ≠ none ∨ (machine.client 0).alert = true ∨
    (∃ signal, machine.flusher = .snapshot signal) ∨
    ∀ lba ∈ machine.engine.table.dirty, lba ∈ machine.flusher.lbas

structure Watched (machine : Machine setup 1) : Prop where
  alone : machine.Alone
  reclaim : ∀ miss, machine.client 0 = .reallocate miss →
    machine.engine.freeList ≠ []
  attended : ∀ channel, machine.engine.flusher = some channel →
    machine.Pressing → machine.Attended channel

def StartsClean (machine : Machine setup 1) : Action setup 1 → Prop
  | .start => machine.engine.table.dirty = ∅
  | _ => True

instance (machine : Machine setup 1) : (action : Action setup 1) →
    Decidable (machine.StartsClean action)
  | .start => inferInstanceAs (Decidable (_ = ∅))
  | .invoke _ _ | .client _ _ | .respond _ | .flush _ | .stop => isTrue trivial

theorem Pressing.mono (hmono : setup.schedule.dirtyWatermark.Monotone)
    (hpressing : next.Pressing)
    (hdirty : next.engine.table.dirty ⊆ machine.engine.table.dirty)
    (htotal : machine.engine.table.cached.card + (machine.client 0).opening ≤
      next.engine.table.cached.card + (next.client 0).opening) :
    machine.Pressing := by
  obtain ⟨hpos, hreached⟩ := hpressing
  have hle := Finset.card_le_card hdirty
  have hcached := Finset.card_le_card machine.engine.table.dirty_subset_cached
  exact ⟨by omega, hmono _ _ _ _ (by omega) hle htotal hreached⟩

theorem not_pressing_of_stats {choice : Choice setup} {lba : Lba setup}
    {buf : Block setup} {wasUpdate : Bool} {pc : Pc setup}
    {engine : CacheEngine setup}
    (hstats : machine.client 0 = .stats lba buf wasUpdate)
    (hstep : (machine.client 0).step choice machine.engine = some (pc, engine))
    (halert : pc.alert = false) :
    ¬Pressing { machine with
      engine := engine
      client := Function.update machine.client 0 pc } := by
  rw [hstats] at hstep
  simp only [Pc.step] at hstep
  split at hstep
  · cases hstep
    cases halert
  · next hbelow =>
    cases hstep
    rintro ⟨hpos, hreached⟩
    apply hbelow
    have hcached := Finset.card_le_card machine.engine.table.dirty_subset_cached
    simp only [Function.update_self, Pc.opening, Nat.add_zero] at hpos hreached
    rw [FlushSchedule.shouldFlushImmediately, LbaTable.stats_dirtyEntries,
      LbaTable.stats_totalEntries, if_neg (by omega)]
    exact hreached

theorem Watched.client_step (hwatched : machine.Watched)
    (hmono : setup.schedule.dirtyWatermark.Monotone) {choice : Choice setup}
    {pc : Pc setup} {engine : CacheEngine setup}
    (hstep : (machine.client 0).step choice machine.engine = some (pc, engine))
    (hio : choice.io.succeeds = true)
    (halone : Alone { machine with
      engine := engine
      client := Function.update machine.client 0 pc }) :
    Watched { machine with
      engine := engine
      client := Function.update machine.client 0 pc } := by
  have hclient := Pc.step_cases hstep
  refine ⟨halone, ?_, ?_⟩
  · intro miss hnext
    simp only [Function.update_self] at hnext
    exact hclient.reclaim hnext
  intro channel hchannel hpressing
  cases halert : pc.alert with
  | true =>
      right
      left
      simpa only [Function.update_self] using halert
  | false =>
      have hmarks : (machine.client 0).marks = false := by
        cases hmarks : (machine.client 0).marks with
        | false => rfl
        | true => cases (hclient.alert_of_marks hmarks).symm.trans halert
      have hstats : ∀ lba buf wasUpdate,
          machine.client 0 ≠ .stats lba buf wasUpdate :=
        fun lba buf wasUpdate hstats =>
          not_pressing_of_stats hstats hstep halert hpressing
      rcases hclient.wakes with hflusher | ⟨hflusher, hwake⟩
      · left
        simp only [hflusher] at hchannel
        obtain ⟨before, _, rfl⟩ := Option.map_eq_some_iff.mp hchannel
        exact FlushChannel.trySend_pending before .wake
      · have hquiet : (machine.client 0).alert = false := by
          cases hpc : machine.client 0 with
          | stats lba buf wasUpdate => exact absurd hpc (hstats _ _ _)
          | wakeForWrite lba buf wasUpdate => exact absurd hpc (hwake _ _ _)
          | _ => rfl
        obtain ⟨hdirty, htotal⟩ :=
          hclient.ratio hwatched.alone.current hio hwatched.reclaim hmarks
        have hbefore : machine.Pressing := by
          apply hpressing.mono hmono hdirty
          simpa only [Function.update_self] using htotal
        rcases hwatched.attended channel (hflusher ▸ hchannel) hbefore with
          hpending | hloud | hsnapshot | hleft
        · exact .inl hpending
        · cases hquiet.symm.trans hloud
        · exact .inr (.inr (.inl hsnapshot))
        · exact .inr (.inr (.inr fun lba hmem => hleft lba (hdirty hmem)))

theorem Watched.set_client (hwatched : machine.Watched) {pc : Pc setup}
    (halert : (machine.client 0).alert = false)
    (hopening : pc.opening = (machine.client 0).opening)
    (hreclaim : ∀ miss, pc ≠ .reallocate miss)
    (halone : Alone
      { machine with client := Function.update machine.client 0 pc }) :
    Watched { machine with client := Function.update machine.client 0 pc } := by
  refine ⟨halone, ?_, ?_⟩
  · intro miss hnext
    simp only [Function.update_self] at hnext
    exact absurd hnext (hreclaim miss)
  · intro channel hchannel hpressing
    unfold Pressing at hpressing
    simp only [Function.update_self, hopening] at hpressing
    rcases hwatched.attended channel hchannel hpressing with
      hpending | hloud | hsnapshot | hleft
    · exact .inl hpending
    · cases halert.symm.trans hloud
    · exact .inr (.inr (.inl hsnapshot))
    · exact .inr (.inr (.inr hleft))

theorem Watched.flush_step (hwatched : machine.Watched)
    (hmono : setup.schedule.dirtyWatermark.Monotone) {choice : Choice setup}
    {pc : FlusherPc setup} {engine : CacheEngine setup}
    (hflush : FlusherStep choice machine.engine machine.flusher pc engine)
    (hio : choice.io.succeeds = true)
    (halone : Alone
      { machine with
        engine := engine
        flusher := pc }) :
    Watched
      { machine with
        engine := engine
        flusher := pc } := by
  refine ⟨halone, ?_, ?_⟩
  · simp only [hflush.freeList_eq]
    exact hwatched.reclaim
  · intro channel hchannel hpressing
    have hdirty := hflush.dirty_subset
    have hbefore : machine.Pressing := by
      apply hpressing.mono hmono hdirty
      simp only [LbaTable.cached, hflush.slotOf]
      exact le_rfl
    rcases hflush.attends hwatched.alone.keyed hio with
      hsnapshot | hall | ⟨hflusher, hleft, hplace⟩
    · exact .inr (.inr (.inl hsnapshot))
    · exact .inr (.inr (.inr hall))
    · rcases hwatched.attended channel (hflusher ▸ hchannel) hbefore with
        hpending | halert | ⟨signal, hsnapshot⟩ | hcovered
      · exact .inl hpending
      · exact .inr (.inl halert)
      · exact absurd hsnapshot (hplace signal)
      · exact .inr (.inr (.inr (hleft hcovered)))

theorem Watched.owner_step (hwatched : machine.Watched)
    {nextChannel : Option FlushChannel} {flusher : FlusherPc setup}
    {owner : OwnerPc}
    (howner : OwnerStep machine action nextChannel flusher owner)
    (hclean : machine.StartsClean action)
    (halone : Alone { machine with
      engine := { machine.engine with flusher := nextChannel }
      flusher := flusher
      owner := owner }) :
    Watched { machine with
      engine := { machine.engine with flusher := nextChannel }
      flusher := flusher
      owner := owner } := by
  refine ⟨halone, hwatched.reclaim, ?_⟩
  intro channel hchannel hpressing
  cases howner with
  | started hrunning hnone =>
      have hdirty : machine.engine.table.dirty = ∅ := hclean
      refine .inr (.inr (.inr ?_))
      simp [hdirty]
  | flagStored hstoring =>
      obtain ⟨before, hbefore, rfl⟩ := Option.map_eq_some_iff.mp hchannel
      exact hwatched.attended before hbefore hpressing
  | signalSent hsending =>
      obtain ⟨before, _, rfl⟩ := Option.map_eq_some_iff.mp hchannel
      exact .inl (FlushChannel.trySend_pending before .shutdown)
  | joined hjoining hexited => cases hchannel
  | _ => exact hwatched.attended channel hchannel hpressing

theorem Watched.step (hwatched : machine.Watched)
    (hmono : setup.schedule.dirtyWatermark.Monotone)
    (hclean : machine.StartsClean action) (hio : action.faultless = true)
    (hstep : machine.step action = some next) : next.Watched := by
  have halone := hwatched.alone.step hstep
  cases action with
  | client thread choice =>
      obtain rfl : thread = 0 := Subsingleton.elim thread 0
      obtain ⟨pc, engine, hclient, rfl⟩ := step_client hstep
      exact hwatched.client_step hmono hclient hio halone
  | invoke thread call =>
      obtain rfl : thread = 0 := Subsingleton.elim thread 0
      cases step_cases hstep with
      | invoke hrunning hidle =>
          apply hwatched.set_client ?_ ?_ ?_ halone
          · rw [hidle]
            rfl
          · rw [hidle, call.opening_enter]
            rfl
          · exact fun miss => call.enter_induction (fun _ => by simp)
              (fun _ => by simp) fun _ _ => by simp
      | owner howner => cases howner
  | respond thread =>
      obtain rfl : thread = 0 := Subsingleton.elim thread 0
      cases step_cases hstep with
      | respond hdone =>
          apply hwatched.set_client ?_ ?_ (fun miss => by simp) halone
          · rw [hdone]
            rfl
          · rw [hdone]
            rfl
      | owner howner => cases howner
  | flush choice =>
      cases step_cases hstep with
      | flush hflush => exact hwatched.flush_step hmono hflush hio halone
      | owner howner => cases howner
  | start =>
      cases step_cases hstep with
      | owner howner => exact hwatched.owner_step howner hclean halone
  | stop =>
      cases step_cases hstep with
      | owner howner => exact hwatched.owner_step howner hclean halone

theorem watched_init (setup : Setup) (image : Image) :
    (init setup 1 image).Watched where
  alone := alone_init setup image
  reclaim := fun _ hpc => by cases hpc
  attended := fun _ hchannel => by cases hchannel

/-- One client beside the flush thread, under any interleaving without I/O
failures, with a flusher that is started before anything is dirty: when the
thread waits with an empty channel and no call is in progress, nothing is dirty
or the watermark is not reached. -/
theorem watermark_never_missed {image : Image} {run : List (Action setup 1)}
    {channel : FlushChannel}
    (hmono : setup.schedule.dirtyWatermark.Monotone)
    (hclean : Run.Along step StartsClean (init setup 1 image) run)
    (hio : ∀ action ∈ run, action.faultless = true)
    (hrun : Run.exec step (init setup 1 image) run = some machine)
    (hquiet : machine.Quiet) (hwaiting : machine.flusher = .waiting)
    (hchannel : machine.engine.flusher = some channel)
    (hempty : channel.pending = none) :
    machine.engine.table.stats.dirtyEntries = 0 ∨
      setup.schedule.shouldFlushImmediately
        machine.engine.table.stats.dirtyEntries
        machine.engine.table.stats.totalEntries = false := by
  have hwatched : machine.Watched :=
    Run.invariant_state (watched_init setup image)
      (fun _ _ _ hwatched hallowed hstep =>
        hwatched.step hmono hallowed.1 hallowed.2 hstep)
      (Run.along_and hclean (Run.along_of_forall hio)) hrun
  have hidle := Pc.isIdle_iff.mp (hquiet 0)
  rw [LbaTable.stats_dirtyEntries, LbaTable.stats_totalEntries]
  rcases Nat.eq_zero_or_pos machine.engine.table.dirty.card with hzero | hpos
  · exact .inl hzero
  · right
    rw [Bool.eq_false_iff]
    intro hreached
    have hpressing : machine.Pressing := by
      refine ⟨hpos, ?_⟩
      rw [FlushSchedule.shouldFlushImmediately] at hreached
      split at hreached
      · cases hreached
      · rw [hidle]
        exact hreached
    rcases hwatched.attended channel hchannel hpressing with
      hpending | halert | ⟨signal, hsnapshot⟩ | hleft
    · exact hpending hempty
    · rw [hidle] at halert
      cases halert
    · cases hwaiting.symm.trans hsnapshot
    · obtain ⟨lba, hmem⟩ := Finset.card_pos.mp hpos
      have hnone := hleft lba hmem
      rw [hwaiting] at hnone
      cases hnone

def belowWatermark : List (Action (.mini 3) 1) :=
  List.flatten [
    [.start, .invoke lone (.write 0 fun _ => 5)], advance lone 6 1,
    .respond lone :: List.replicate 6 (.flush (.calm 2)),
    [.invoke lone (.read 1)], advance lone 5 3,
    [.respond lone, .invoke lone (.write 1 fun _ => 6)], advance lone 4 4,
    [.respond lone]]

theorem belowWatermark_not_missed :
    ∃ machine, Run.exec step (init (.mini 3) 1 stripes) belowWatermark =
        some machine ∧ machine.engine.table.stats.dirtyEntries = 1 ∧
      FlushSchedule.shouldFlushImmediately (Setup.mini 3).schedule
        machine.engine.table.stats.dirtyEntries
        machine.engine.table.stats.totalEntries = false := by
  have hmono : (Setup.mini 3).schedule.dirtyWatermark.Monotone := by
    intro dirtyCount totalCount moreDirty fewerTotal _ hdirty htotal hreached
    simp only [Setup.mini, decide_eq_true_eq] at hreached ⊢
    omega
  have hfinal : (Run.exec step (init (.mini 3) 1 stripes) belowWatermark).map
      (fun machine => (decide machine.Quiet,
        machine.engine.table.stats.dirtyEntries, machine.engine.flusher)) =
      some (true, 1, some .fresh) := by
    decide +kernel
  have hflusher : (Run.exec step (init (.mini 3) 1 stripes) belowWatermark).map
      (fun machine => machine.flusher) = some .waiting := rfl
  obtain ⟨machine, hrun, hstate⟩ := Option.map_eq_some_iff.mp hfinal
  rw [hrun] at hflusher
  obtain ⟨hquiet, hrest⟩ := Prod.mk.inj hstate
  obtain ⟨hdirty, hchannel⟩ := Prod.mk.inj hrest
  refine ⟨machine, hrun, hdirty, ?_⟩
  rcases watermark_never_missed hmono (by decide +kernel) (by decide +kernel) hrun
    (of_decide_eq_true hquiet) (Option.some.inj hflusher) hchannel rfl with
    hnone | hbelow
  · rw [hdirty] at hnone
    cases hnone
  · exact hbelow

end Machine

end AsmCacheInject.Concurrent
