import AsmCacheInject.Native.Paths

namespace AsmCacheInject.Native

open AsmCacheInject.Data
open AsmCacheInject.Data.AddressSpace
open AsmCacheInject.Engine
open AsmCacheInject.Flush

variable {setup : Setup}

/-! Whole runs. -/

namespace NativeRequest

/-- The buffer of the call lies outside the pool. -/
def Placed (platform : Platform setup) : NativeRequest setup → Prop
  | .read _ _ target => platform.Apart target
  | .write _ _ source => platform.Apart source
  | _ => True

/-- A write from a buffer the streaming copy cannot load from. -/
def Misaligned : NativeRequest setup → Prop
  | .write _ _ source => source % 16 ≠ 0
  | _ => False

/-- The stores outside the pool that a call may make. -/
def Stores (address : UInt64) : NativeRequest setup → NativeReply → Prop
  | .compute _, _ => True
  | .read _ _ target, .read (.ok _) =>
      Within target (.ofNat setup.blockSize) address
  | _, _ => False

end NativeRequest

namespace NativeEngine

variable {platform : Platform setup} {engine : NativeEngine setup}
variable {blocks : Nat → Block setup}

def content (platform : Platform setup) (engine : NativeEngine setup)
    (lba : Lba setup) : Block setup :=
  match engine.table.slotOf lba with
  | some slot => bytesAt engine.memory (engine.getBlock platform slot).ptr
  | none => Engine.readLba engine.device lba

/-! One call of the client.  It takes the engine of whole blocks at most one
request. -/

theorem run_one {plain after : CacheEngine setup} {request : Request setup}
    {reply : Reply setup} (hperform : plain.perform request = (reply, after)) :
    plain.runAll [request] = after ∧
      plain.history [request] = request.acknowledged reply := by
  refine ⟨congrArg Prod.snd hperform, ?_⟩
  simp only [CacheEngine.history, hperform, List.append_nil]

theorem read_view (hsize : setup.totalBytes ≤ 2 ^ 63 - 1)
    (hholds : Holds platform engine.memory blocks) {lost : List Nat}
    (haccounted : (engine.view blocks).Accounted lost) {target : UInt64}
    (htarget : platform.Apart target) (env : Surroundings setup) (lba : Nat) :
    ∃ reply next request blocksNext,
      engine.perform platform (.read env lba target) = some (reply, next) ∧
      (engine.view blocks).runAll [request] = next.view blocksNext ∧
      (engine.view blocks).history [request] =
        NativeRequest.acknowledged engine next (.read env lba target) reply ∧
      Holds platform next.memory blocksNext ∧
      ∀ address, ¬platform.InPool address →
        ¬NativeRequest.Stores address (.read env lba target) reply →
        next.memory address = engine.memory address := by
  by_cases hlba : lba < setup.maxLba
  · obtain ⟨result, next, evict, fetch, blocksNext, hnative, hplain, hnext, hdata,
      hframe⟩ := cachedRead_view hsize hholds haccounted htarget env ⟨lba, hlba⟩
    have hperform : (engine.view blocks).perform (.read (env.plain evict fetch) lba) =
        (.read result, next.view blocksNext) := by
      simp only [CacheEngine.perform, CacheEngine.read, hlba, dif_pos, hplain]
    obtain ⟨hrun, hhistory⟩ := run_one hperform
    refine ⟨.read (result.map fun read => ⟨read.cacheHit⟩), next, _, blocksNext, ?_,
      hrun, hhistory.trans ?_, hnext, ?_⟩
    · simp only [perform, read, hlba, dif_pos, hnative]
      rfl
    · cases result with
      | error error => rfl
      | ok read =>
          simp only [Request.acknowledged, NativeRequest.acknowledged, Except.map,
            hlba, dif_pos]
          rw [hdata read rfl]
    · intro address hpool hstores
      refine hframe address hpool ?_
      rintro read rfl
      exact hstores
  · have hperform : (engine.view blocks).perform (.read (env.plain .ok .ok) lba) =
        (.read (.error (.lbaOutOfRange lba setup.maxLba)), engine.view blocks) := by
      simp only [CacheEngine.perform, CacheEngine.read, hlba, dif_neg,
        not_false_eq_true]
    obtain ⟨hrun, hhistory⟩ := run_one hperform
    refine ⟨.read (.error (.lbaOutOfRange lba setup.maxLba)), engine, _, blocks, ?_,
      hrun, hhistory, hholds, fun _ _ _ => rfl⟩
    simp only [perform, read, hlba, dif_neg, not_false_eq_true]
    rfl

theorem write_view (hsize : setup.totalBytes ≤ 2 ^ 63 - 1)
    (hholds : Holds platform engine.memory blocks) {lost : List Nat}
    (haccounted : (engine.view blocks).Accounted lost) {source : UInt64}
    (hsource : platform.Apart source) (env : Surroundings setup) (lba : Nat) :
    (source % 16 ≠ 0 ∧ engine.perform platform (.write env lba source) = none) ∨
    ∃ reply next request blocksNext,
      engine.perform platform (.write env lba source) = some (reply, next) ∧
      (engine.view blocks).runAll [request] = next.view blocksNext ∧
      (engine.view blocks).history [request] =
        NativeRequest.acknowledged engine next (.write env lba source) reply ∧
      Holds platform next.memory blocksNext ∧
      ∀ address, ¬platform.InPool address →
        next.memory address = engine.memory address := by
  by_cases hlba : lba < setup.maxLba
  · rcases cachedWrite_view hsize hholds haccounted hsource env ⟨lba, hlba⟩ with
      ⟨hmisaligned, hfault⟩ |
      ⟨result, next, evict, blocksNext, hnative, hplain, hnext, hframe⟩
    · left
      refine ⟨hmisaligned, ?_⟩
      simp only [perform, write, hlba, dif_pos, hfault]
      rfl
    · right
      have hperform : (engine.view blocks).perform
          (.write (env.plain evict .ok) lba (bytesAt engine.memory source)) =
            (.write result, next.view blocksNext) := by
        simp only [CacheEngine.perform, CacheEngine.write, hlba, dif_pos, hplain]
      obtain ⟨hrun, hhistory⟩ := run_one hperform
      refine ⟨.write result, next, _, blocksNext, ?_, hrun, hhistory.trans ?_, hnext,
        hframe⟩
      · simp only [perform, write, hlba, dif_pos, hnative]
        rfl
      · cases result with
        | error error => rfl
        | ok written => rfl
  · right
    have hperform : (engine.view blocks).perform
        (.write (env.plain .ok .ok) lba (bytesAt engine.memory source)) =
          (.write (.error (.lbaOutOfRange lba setup.maxLba)),
            engine.view blocks) := by
      simp only [CacheEngine.perform, CacheEngine.write, hlba, dif_neg,
        not_false_eq_true]
    obtain ⟨hrun, hhistory⟩ := run_one hperform
    refine ⟨.write (.error (.lbaOutOfRange lba setup.maxLba)), engine, _, blocks, ?_,
      hrun, hhistory, hholds, fun _ _ => rfl⟩
    simp only [perform, write, hlba, dif_neg, not_false_eq_true]
    rfl

theorem perform_view (hsize : setup.totalBytes ≤ 2 ^ 63 - 1)
    (hholds : Holds platform engine.memory blocks) {lost : List Nat}
    (haccounted : (engine.view blocks).Accounted lost)
    {request : NativeRequest setup} (hplaced : request.Placed platform) :
    (request.Misaligned ∧ engine.perform platform request = none) ∨
    ∃ reply next requests blocksNext,
      engine.perform platform request = some (reply, next) ∧
      (engine.view blocks).runAll requests = next.view blocksNext ∧
      (engine.view blocks).history requests =
        request.acknowledged engine next reply ∧
      Holds platform next.memory blocksNext ∧
      ∀ address, ¬platform.InPool address → ¬request.Stores address reply →
        next.memory address = engine.memory address := by
  cases request with
  | compute memory =>
      right
      refine ⟨.computed, _, [], blocks, rfl, rfl, rfl, hholds.congr ?_, ?_⟩
      · intro address hpool
        exact if_pos hpool
      · intro address _ hstores
        exact absurd trivial hstores
  | read env lba target =>
      right
      obtain ⟨reply, next, request, blocksNext, hview⟩ :=
        read_view hsize hholds haccounted hplaced env lba
      exact ⟨reply, next, [request], blocksNext, hview⟩
  | write env lba source =>
      rcases write_view hsize hholds haccounted hplaced env lba with
        hfault | ⟨reply, next, request, blocksNext, hperform, hrun, hhistory, hnext,
          hframe⟩
      · exact .inl hfault
      · exact .inr ⟨reply, next, [request], blocksNext, hperform, hrun, hhistory,
          hnext, fun address hpool _ => hframe address hpool⟩
  | flush order answers =>
      right
      obtain ⟨count, next, writes, hnative, hkept, hplain⟩ :=
        flushDirtyBlocks_view hsize hholds haccounted order answers
      have hperform : (engine.view blocks).perform (.flush order writes) =
          (.flushed count, next.view blocks) := by
        simp only [CacheEngine.perform, hplain]
      obtain ⟨hrun, hhistory⟩ := run_one hperform
      refine ⟨.flushed count, next, _, blocks, congrArg (Option.map _) hnative, hrun,
        hhistory, hkept ▸ hholds, ?_⟩
      intro address _ _
      rw [hkept]

theorem history_append (plain : CacheEngine setup)
    (first second : List (Request setup)) :
    plain.history (first ++ second) =
      plain.history first ++ (plain.runAll first).history second := by
  induction first generalizing plain with
  | nil => rfl
  | cons request rest ih =>
      simp only [List.cons_append, CacheEngine.history, ih, List.append_assoc]
      rfl

/-- A run faults on a misaligned buffer or is a run of the engine of whole
blocks. -/
theorem runAll_view (hsize : setup.totalBytes ≤ 2 ^ 63 - 1)
    (hholds : Holds platform engine.memory blocks) {lost : List Nat}
    (haccounted : (engine.view blocks).Accounted lost)
    {run : List (NativeRequest setup)}
    (hplaced : ∀ request ∈ run, request.Placed platform) :
    ((∃ request ∈ run, request.Misaligned) ∧ engine.runAll platform run = none) ∨
    ∃ final requests blocksNext,
      engine.runAll platform run =
        some ((engine.view blocks).history requests, final) ∧
      (engine.view blocks).runAll requests = final.view blocksNext ∧
      Holds platform final.memory blocksNext := by
  induction run generalizing engine blocks lost with
  | nil => exact .inr ⟨engine, [], blocks, rfl, rfl, hholds⟩
  | cons request rest ih =>
      rw [List.forall_mem_cons] at hplaced
      rcases perform_view hsize hholds haccounted hplaced.1 with
        ⟨hmisaligned, hfault⟩ |
        ⟨reply, next, first, blocksNext, hperform, hrun, hhistory, hnext, -⟩
      · refine .inl ⟨⟨request, List.mem_cons_self, hmisaligned⟩, ?_⟩
        simp only [runAll, hfault]
      · obtain ⟨lostNext, hslots⟩ := haccounted.runAll first
        rw [hrun] at hslots
        rcases ih hnext hslots hplaced.2 with
          ⟨⟨later, hmem, hmisaligned⟩, hfault⟩ |
          ⟨final, second, blocksFinal, hrest, hlast, hfinal⟩
        · refine .inl ⟨⟨later, List.mem_cons_of_mem _ hmem, hmisaligned⟩, ?_⟩
          simp only [runAll, hperform, hfault]
          rfl
        · refine .inr ⟨final, first ++ second, blocksFinal, ?_, ?_, hfinal⟩
          · simp only [runAll, hperform, hrest, history_append, hrun, hhistory]
            rfl
          · rw [CacheEngine.runAll_append, hrun, hlast]

theorem content_view (hholds : Holds platform engine.memory blocks)
    {lost : List Nat} (haccounted : (engine.view blocks).Accounted lost)
    (lba : Lba setup) :
    engine.content platform lba = (engine.view blocks).content lba := by
  cases hslot : engine.table.slotOf lba with
  | none =>
      simp only [content, CacheEngine.content, view_table, hslot]
      rfl
  | some slot =>
      simp only [content, CacheEngine.content, view_table, hslot]
      exact hholds slot (mapped_lt haccounted hslot)

theorem boot_view (platform : Platform setup) (image : Image)
    (flusher : Option FlushChannel) (memory : Memory UInt8) :
    Holds platform (boot platform image flusher memory).memory fun _ _ => 0 := by
  intro slot hslot
  funext index
  exact if_pos (Platform.block_inPool hslot (Platform.block_contains index.isLt))

/-- Down to single bytes, instructions and system calls, a run is a history of
a plain map: an `Ok` read leaves the bytes of the last `Ok` write in its
buffer.  Only writes from misaligned buffers can fault, and outside the pool
nothing is stored but what a read delivers. -/
theorem runAll_bytes_transparent (hsize : setup.totalBytes ≤ 2 ^ 63 - 1)
    (platform : Platform setup) (image : Image) (flusher : Option FlushChannel)
    (memory : Memory UInt8) {run : List (NativeRequest setup)}
    (hplaced : ∀ request ∈ run, request.Placed platform) :
    ((∀ request ∈ run, ¬request.Misaligned) →
      (boot platform image flusher memory).runAll platform run ≠ none) ∧
    ∀ events final,
      (boot platform image flusher memory).runAll platform run =
        some (events, final) →
      Register.Consistent (Engine.readLba image) events ∧
      (∀ lba, final.content platform lba =
        Register.replay (Engine.readLba image) events lba) ∧
      (∀ position, setup.maxLba * setup.blockSize ≤ position →
        final.device position = image position) ∧
      ∀ request, request.Placed platform → ∀ reply next,
        final.perform platform request = some (reply, next) →
        ∀ address, ¬platform.InPool address → ¬request.Stores address reply →
          next.memory address = final.memory address := by
  have hholds := boot_view platform image flusher memory
  have haccounted : ((boot platform image flusher memory).view
      fun _ _ => 0).Accounted [] := CacheEngine.Accounted.boot image flusher
  have hcoherent : CacheEngine.Coherent image (Engine.readLba image)
      ((boot platform image flusher memory).view fun _ _ => 0) :=
    CacheEngine.Coherent.boot image flusher
  rcases runAll_view hsize hholds haccounted hplaced with
    ⟨⟨request, hmem, hmisaligned⟩, hfault⟩ |
    ⟨last, requests, blocks, hrun, hlast, hheld⟩
  · refine ⟨fun haligned => absurd hmisaligned (haligned request hmem), ?_⟩
    intro events final hsome
    rw [hfault] at hsome
    cases hsome
  · refine ⟨fun _ => by rw [hrun]; exact Option.some_ne_none _, ?_⟩
    intro events final hsome
    rw [hrun] at hsome
    cases hsome
    obtain ⟨hcoherent, hconsistent⟩ := hcoherent.runAll haccounted requests
    obtain ⟨lost, hslots⟩ := haccounted.runAll requests
    rw [hlast] at hcoherent hslots
    refine ⟨hconsistent, ?_, hcoherent.tail, ?_⟩
    · intro lba
      rw [content_view hheld hslots lba]
      exact hcoherent.content lba
    · intro request hnextPlaced reply next hperform
      rcases perform_view hsize hheld hslots hnextPlaced with
        ⟨_, hfault⟩ | ⟨_, _, _, _, hsame, _, _, _, hframe⟩
      · rw [hfault] at hperform
        cases hperform
      · rw [hsame] at hperform
        cases hperform
        exact hframe

def bytewise : Answers (.mini 0) where
  answers := List.replicate 1048576 (.moved 1)
  enough := by
    rw [List.length_replicate]
    rfl

def high : Platform (.mini 0) where
  basePtr := 4294967296
  erms := true
  aligned := by decide
  fits := by decide

/-- A block of sevens is written and read back, one byte a system call. -/
theorem bytewise_transparent : ∃ events final,
    (boot high (fun _ => 0) none fun _ => 7).runAll high
        [.write ⟨1, 1, .stored, bytewise, bytewise⟩ 0 8589934592,
          .read ⟨2, 2, .stored, bytewise, bytewise⟩ 0 12884901888] =
      some (events, final) ∧
    Register.Consistent (Engine.readLba fun _ => 0) events := by
  have hplaced : ∀ request ∈ [NativeRequest.write
        ⟨1, 1, .stored, bytewise, bytewise⟩ 0 8589934592,
      .read ⟨2, 2, .stored, bytewise, bytewise⟩ 0 12884901888],
      request.Placed high := by
    intro request hmem
    rcases List.mem_pair.mp hmem with rfl | rfl
    · exact Platform.apart_of_le (by decide) (by decide)
    · exact Platform.apart_of_le (by decide) (by decide)
  obtain ⟨hcompletes, hconsistent⟩ := runAll_bytes_transparent
    (show (Setup.mini 0).totalBytes ≤ 2 ^ 63 - 1 by decide) high (fun _ => 0) none
    (fun _ => 7) hplaced
  have hsome := hcompletes (by
    intro request hmem
    rcases List.mem_pair.mp hmem with rfl | rfl
    · exact fun hodd => hodd rfl
    · exact fun hodd => hodd)
  obtain ⟨⟨events, final⟩, hrun⟩ := Option.ne_none_iff_exists'.mp hsome
  exact ⟨events, final, hrun, (hconsistent events final hrun).1⟩

end NativeEngine

end AsmCacheInject.Native
