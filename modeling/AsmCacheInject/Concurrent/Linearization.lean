import AsmCacheInject.Concurrent.Content
import AsmCacheInject.Data.Linearization

namespace AsmCacheInject.Concurrent

open AsmCacheInject.Cache
open AsmCacheInject.Data
open AsmCacheInject.Data.Linearization
open AsmCacheInject.Engine
open AsmCacheInject.Flush

variable {setup : Setup} {n : Nat}

/-! Where calls take effect.  A read takes effect when its block is copied out,
a write when its block is copied into a cached slot or inserted with one. -/

def Pc.effect (blocks : Nat → Block setup) : Pc setup → Option (BlockEvent setup)
  | .readHit lba slot => some (.read lba (blocks slot))
  | .copyRead lba slot => some (.read lba (blocks slot))
  | .writeHit lba buf _ => some (.write lba buf)
  | .insertWrite lba buf _ => some (.write lba buf)
  | _ => none

def Pc.phase : Pc setup → Phase (BlockEvent setup)
  | .idle => .idle
  | pc =>
      match pc.unreported with
      | [] => .open
      | event :: _ => .took event

theorem Miss.phase_filling (miss : Miss setup) (slot : Nat) :
    (miss.filling slot).phase = .open := by
  cases miss <;> rfl

theorem Call.phase_enter (call : Call setup) : call.enter.phase = .open :=
  call.enter_induction (fun _ => rfl) (fun _ => rfl) fun _ _ => rfl

theorem Outcome.moves_answer (outcome : Outcome setup) :
    Moves (Pc.done outcome).phase (.answer outcome.events.head?) .idle := by
  cases outcome with
  | readOk lba result => exact .answer _
  | writeOk lba buf result => exact .answer _
  | failed error => exact .fail

section Step

variable {choice : Choice setup} {engine nextEngine : CacheEngine setup}
variable {pc next : Pc setup}

theorem ClientStep.phase (hstep : ClientStep choice engine pc next nextEngine) :
    (pc.effect engine.blocks = none ∧ next.phase = pc.phase) ∨
      ∃ event, pc.effect engine.blocks = some event ∧
        Moves pc.phase (.effect event) next.phase := by
  cases hstep with
  | readHit => exact .inr ⟨_, rfl, .effect _⟩
  | takeFree hfree => exact .inl ⟨rfl, Miss.phase_filling _ _⟩
  | retake hfree => exact .inl ⟨rfl, Miss.phase_filling _ _⟩
  | copyRead => exact .inr ⟨_, rfl, .effect _⟩
  | writeHit => exact .inr ⟨_, rfl, .effect _⟩
  | insertWrite => exact .inr ⟨_, rfl, .effect _⟩
  | _ => exact .inl ⟨rfl, rfl⟩

end Step

/-- An effect changes the map as the write that becomes visible does, and shows
what the map holds. -/
theorem Pc.effect_replays {engine : CacheEngine setup} {pc : Pc setup}
    (hpairs : ∀ pair ∈ pc.accesses, PairCurrent engine pair) :
    Register.replay engine.content (pc.effect engine.blocks).toList =
        applyWrite engine.content pc.commits ∧
      Register.Consistent engine.content (pc.effect engine.blocks).toList := by
  cases pc with
  | readHit lba slot =>
      refine ⟨rfl, ?_, trivial⟩
      exact (CacheEngine.content_of_cached (hpairs (lba, slot) rfl)).symm
  | copyRead lba slot =>
      refine ⟨rfl, ?_, trivial⟩
      exact (CacheEngine.content_of_cached (hpairs (lba, slot) rfl)).symm
  | _ => exact ⟨rfl, trivial⟩

namespace Machine

def marks (machine : Machine setup n) :
    Action setup n → List (Fin n × Mark (BlockEvent setup))
  | .invoke thread _ => [(thread, .call)]
  | .client thread _ =>
      ((machine.client thread).effect machine.engine.blocks).toList.map
        fun event => (thread, .effect event)
  | .respond thread =>
      match machine.client thread with
      | .done outcome => [(thread, .answer outcome.events.head?)]
      | _ => []
  | _ => []

/-- Orderly steps, and pairs that are still in the table when their blocks are
accessed. -/
def Disciplined (machine : Machine setup n) (action : Action setup n) : Prop :=
  machine.Orderly action ∧ machine.UsesCurrentPairs action

instance (machine : Machine setup n) (action : Action setup n) :
    Decidable (machine.Disciplined action) :=
  inferInstanceAs (Decidable (_ ∧ _))

variable {machine next : Machine setup n} {action : Action setup n}

theorem Disciplined.keepsContent (hdisciplined : machine.Disciplined action) :
    machine.KeepsContent action := by
  refine ⟨hdisciplined.1, ?_⟩
  cases action with
  | flush choice => exact hdisciplined.2
  | _ => trivial

structure Linear (initial : Lba setup → Block setup)
    (history : List (Fin n × Mark (BlockEvent setup)))
    (machine : Machine setup n) : Prop where
  staged : machine.Staged
  content : machine.engine.content = Register.replay initial (effects history)
  consistent : Register.Consistent initial (effects history)
  conducted : Conducted history fun thread => (machine.client thread).phase

theorem linear_init (setup : Setup) (n : Nat) (image : Image) :
    Linear (readLba image) [] (init setup n image) where
  staged := staged_init setup n image
  content := by
    funext lba
    exact CacheEngine.content_of_absent (LbaTable.slotOf_new lba)
  consistent := trivial
  conducted := .start

variable {initial : Lba setup → Block setup}
variable {history : List (Fin n × Mark (BlockEvent setup))}

theorem phases_update (client : Fin n → Pc setup) (thread : Fin n) (pc : Pc setup) :
    (fun other => (Function.update client thread pc other).phase) =
      Function.update (fun other => (client other).phase) thread pc.phase := by
  funext other
  exact Function.apply_update (fun _ => Pc.phase) client thread pc other

theorem effects_marks (machine : Machine setup n) (thread : Fin n)
    (choice : Choice setup) :
    effects (machine.marks (.client thread choice)) =
      ((machine.client thread).effect machine.engine.blocks).toList := by
  simp only [marks, effects]
  cases (machine.client thread).effect machine.engine.blocks <;> rfl

theorem Linear.step (hlinear : Linear initial history machine)
    (hdisciplined : machine.Disciplined action) (hio : action.faultless = true)
    (hstep : machine.step action = some next) :
    Linear initial (history ++ machine.marks action) next := by
  have hstaged := hlinear.staged.step hdisciplined.1 hio hstep
  have hcontent :=
    hlinear.staged.content_step hdisciplined.keepsContent hio hstep
  cases step_cases hstep with
  | @invoke thread call hrunning hidle =>
      have hsilent : effects (machine.marks (.invoke thread call)) = [] := rfl
      refine ⟨hstaged, ?_, ?_, ?_⟩
      · rw [effects_append, hsilent, List.append_nil]
        exact hlinear.content
      · rw [effects_append, hsilent, List.append_nil]
        exact hlinear.consistent
      · rw [phases_update, call.phase_enter]
        refine hlinear.conducted.step ?_
        rw [hidle]
        exact .call
  | @client thread choice pc engine hclient =>
      have hpairs := hdisciplined.2.1
      obtain ⟨hreplay, hshown⟩ := Pc.effect_replays hpairs
      refine ⟨hstaged, ?_, ?_, ?_⟩
      · rw [effects_append, effects_marks, Register.replay_append,
          ← hlinear.content, hreplay]
        exact hcontent
      · rw [effects_append, effects_marks, Register.consistent_append,
          ← hlinear.content]
        exact ⟨hlinear.consistent, hshown⟩
      · rw [phases_update]
        rcases hclient.phase with ⟨heffect, hphase⟩ | ⟨event, heffect, hmove⟩
        · simp only [marks, heffect, Option.toList_none, List.map_nil,
            List.append_nil, hphase]
          have hsame := Function.update_eq_self thread
            fun other => (machine.client other).phase
          rw [hsame]
          exact hlinear.conducted
        · simp only [marks, heffect, Option.toList_some, List.map_cons, List.map_nil]
          exact hlinear.conducted.step hmove
  | @respond thread outcome hdone =>
      have hmarks : machine.marks (.respond thread) =
          [(thread, .answer outcome.events.head?)] := by
        simp only [marks, hdone]
      have hsilent : effects (machine.marks (.respond thread)) = [] := by
        rw [hmarks]
        rfl
      refine ⟨hstaged, ?_, ?_, ?_⟩
      · rw [effects_append, hsilent, List.append_nil]
        exact hlinear.content
      · rw [effects_append, hsilent, List.append_nil]
        exact hlinear.consistent
      · rw [phases_update, hmarks]
        refine hlinear.conducted.step ?_
        rw [hdone]
        exact outcome.moves_answer
  | flush hflush =>
      simp only [marks, List.append_nil]
      exact ⟨hstaged, hcontent.trans hlinear.content, hlinear.consistent,
        hlinear.conducted⟩
  | owner howner =>
      have hsilent : machine.marks action = [] := by cases howner <;> rfl
      rw [hsilent, List.append_nil]
      exact ⟨hstaged, hlinear.content, hlinear.consistent, hlinear.conducted⟩

/-- Any number of clients beside the flush thread: in a disciplined run without
I/O failures, the effects of the calls are a history of a plain map, and every
call that is answered took effect between its start and its answer. -/
theorem disciplined_linearizable {image : Image} {run : List (Action setup n)}
    (hdisciplined : Run.Along step Disciplined (init setup n image) run)
    (hio : ∀ action ∈ run, action.faultless = true)
    (hrun : Run.exec step (init setup n image) run = some machine) :
    Register.Consistent (readLba image)
        (effects (Run.trace step marks (init setup n image) run)) ∧
      ∀ before thread event after,
        Run.trace step marks (init setup n image) run =
          before ++ (thread, .answer (some event)) :: after →
        ∃ first second third, before =
            first ++ (thread, .call) :: second ++
              (thread, .effect event) :: third ∧
          Silent thread second ∧ Silent thread third := by
  have hlinear : Linear (readLba image)
      (Run.trace step marks (init setup n image) run) machine :=
    Run.invariant_trace (linear_init setup n image)
      (fun _ _ _ _ hlinear hallowed hstep =>
        hlinear.step hallowed.1 hallowed.2 hstep)
      (Run.along_and hdisciplined (Run.along_of_forall hio)) hrun
  exact ⟨hlinear.consistent, fun before thread event after hsplit =>
    hlinear.conducted.answered hsplit⟩

def overlappingCalls : List (Action (.mini 1) 2) :=
  List.flatten [
    [.start, .invoke clientA (.write 0 fun _ => 5), .invoke clientB (.read 1)],
    advance clientA 3 1, advance clientB 3 2, advance clientA 3 3,
    advance clientB 2 4, [.respond clientB, .respond clientA],
    [.flush (.calm 5), .invoke clientA (.read 0), .flush (.calm 5)],
    advance clientA 1 6, [.flush (.calm 6), .flush (.calm 6)],
    advance clientA 1 7, [.respond clientA]]

theorem overlappingCalls_linearizable :
    ∃ first second third,
      (Run.trace step marks (init (.mini 1) 2 stripes) overlappingCalls).dropLast =
        first ++ (clientA, .call) :: second ++
          (clientA, .effect (.read 0 fun _ => 5)) :: third := by
  have hruns : (Run.exec step (init (.mini 1) 2 stripes)
      overlappingCalls).isSome = true := by
    decide +kernel
  obtain ⟨machine, hrun⟩ := Option.isSome_iff_exists.mp hruns
  have hsplit : Run.trace step marks (init (.mini 1) 2 stripes) overlappingCalls =
      (Run.trace step marks (init (.mini 1) 2 stripes) overlappingCalls).dropLast ++
        (clientA, .answer (some (.read 0 fun _ => 5))) :: [] := rfl
  obtain ⟨first, second, third, hbefore, _⟩ :=
    (disciplined_linearizable (by decide +kernel) (by decide +kernel) hrun).2
      _ _ _ _ hsplit
  exact ⟨first, second, third, hbefore⟩

end Machine

end AsmCacheInject.Concurrent
