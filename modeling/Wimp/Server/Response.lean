import Wimp.Server.LockPairing

/-!
# What a wait takes out of the incoming queue

Let the instructions which were queued at the call be followed by those which
the receivers append while it runs.  The scan moves them, in this order, to
the temporary queue, up to the first one which is named like the awaited
instruction or like the exit signal.  That one is taken, and the others are
put back in front of what is left.

So the wait removes one instruction and keeps the order of the rest.  It
never looks at the destination: an instruction which waits to be routed to
another process is taken like one for the server itself.
-/

namespace Wimp.Server.Response

open Wimp.Lib.ByteRegion
open Wimp.Lib.Mutex
open Wimp.Lib.Runs
open Wimp.Instr.Codec
open Wimp.Server.WaitResponse
open Wimp.Server.LockPairing (Answers named)

variable {count : Nat} {instr : CString} {nodes : List Bytes}
variable {config next : Config count} {action : Action count}

/-! ## The phases of the call -/

/-- The server has not found anything yet. -/
def Searching : ServerControl → Prop
  | .lock _ => True
  | .scan => True
  | .unlock disconnect _ => disconnect = false
  | _ => False

/-- The server has taken an instruction, and the queues are still apart. -/
def Found : ServerControl → Prop
  | .unlock disconnect _ => disconnect = true
  | .relock _ => True
  | .prepend => True
  | _ => False

/-- The temporary queue is back in front of the incoming queue. -/
def Joined : ServerControl → Prop
  | .lastUnlock _ => True
  | .free => True
  | .returned => True
  | _ => False

/-- The scan goes past the instruction. -/
def Passed (instr : CString) (buffer : Bytes) : Prop :=
  nodeCheck buffer instr.val = some false ∧
    nodeCheck buffer wimpInstructionExit = some false

/-- The node which the call returns when it has taken an instruction. -/
def response (instr : CString) (buffer : Bytes) : Option Bytes :=
  if nodeCheck buffer instr.val = some true then some buffer else none

/-- Everything that was queued at the call or has arrived since. -/
def offered (nodes : List Bytes) (config : Config count) : List Bytes :=
  nodes ++ config.arrived

/-- One instruction is taken from behind those which were passed. -/
structure Takes (instr : CString) (all before after : List Bytes)
    (found : Bytes) : Prop where
  split : all = before ++ found :: after
  passed : ∀ buffer ∈ before, Passed instr buffer
  answers : Answers instr found

/-- Where the instructions are, phase by phase. -/
inductive Invariant (instr : CString) (nodes : List Bytes)
    (config : Config count) : Prop where
  | searching (control : Searching config.server)
      (all :
        offered nodes config =
          config.tmpqueue.nodes ++ config.incoming.nodes)
      (passed : ∀ buffer ∈ config.tmpqueue.nodes, Passed instr buffer)
      (nothing : config.node = none)
  | found (control : Found config.server) (found : Bytes)
      (takes :
        Takes instr (offered nodes config) config.tmpqueue.nodes
          config.incoming.nodes found)
      (node : config.node = response instr found)
  | joined (control : Joined config.server) (before after : List Bytes)
      (found : Bytes)
      (takes : Takes instr (offered nodes config) before after found)
      (node : config.node = response instr found)
      (rest : config.incoming.nodes = before ++ after)
  | fault (control : config.server = .fault)

/-! ## Preservation -/

/-- A lock function moves the server on inside its phase. -/
theorem phases_resume {control : ServerControl} (code : LockCode) :
    (Searching control → Searching (control.resume code)) ∧
      (Found control → Found (control.resume code)) ∧
        (Joined control → Joined (control.resume code)) := by
  cases control <;>
    simp [Searching, Found, Joined, ServerControl.resume]

/-- From the end of a lock function, too, the phase goes on. -/
theorem phases_finish (control : ServerControl) :
    (Searching control → Searching control.finish) ∧
      (Found control → Found control.finish) ∧
        (Joined control → Joined control.finish) := by
  cases control with
  | unlock disconnect code =>
      cases disconnect <;>
        simp [Searching, Found, Joined, ServerControl.finish]
  | _ => simp [Searching, Found, Joined, ServerControl.finish]

/-- A step of the server which moves nothing. -/
theorem Invariant.of_control
    (invariant : Invariant instr nodes config)
    (incoming : next.incoming.nodes = config.incoming.nodes)
    (tmpqueue : next.tmpqueue.nodes = config.tmpqueue.nodes)
    (node : next.node = config.node)
    (arrived : next.arrived = config.arrived)
    (searching : Searching config.server → Searching next.server)
    (found : Found config.server → Found next.server)
    (joined : Joined config.server → Joined next.server)
    (fault : config.server = .fault → next.server = .fault) :
    Invariant instr nodes next := by
  have same : offered nodes next = offered nodes config := by
    rw [offered, offered, arrived]
  cases invariant with
  | searching control all passed nothing =>
      apply Invariant.searching (searching control)
      · rw [same, all, tmpqueue, incoming]
      · rw [tmpqueue]
        exact passed
      · rw [node, nothing]
  | found control taken takes response =>
      apply Invariant.found (found control) taken
      · rw [same, tmpqueue, incoming]
        exact takes
      · rw [node, response]
  | joined control before after taken takes response rest =>
      apply Invariant.joined (joined control) before after taken
      · rw [same]
        exact takes
      · rw [node, response]
      · rw [incoming, rest]
  | fault control => exact .fault (fault control)

/-- An arrival joins the back of everything. -/
theorem Takes.append
    {all before after : List Bytes} {found : Bytes}
    (takes : Takes instr all before after found) (arrival : List Bytes) :
    Takes instr (all ++ arrival) before (after ++ arrival) found := by
  rcases takes with ⟨split, passed, answers⟩
  refine ⟨?_, passed, answers⟩
  rw [split, List.append_assoc, List.cons_append]

/-- A receiver appends an instruction. -/
theorem Invariant.arrive
    (invariant : Invariant instr nodes config) {arrival : List Bytes}
    (incoming :
      next.incoming.nodes = config.incoming.nodes ++ arrival)
    (tmpqueue : next.tmpqueue = config.tmpqueue)
    (node : next.node = config.node)
    (arrived : next.arrived = config.arrived ++ arrival)
    (server : next.server = config.server) :
    Invariant instr nodes next := by
  have more : offered nodes next = offered nodes config ++ arrival := by
    rw [offered, offered, arrived, List.append_assoc]
  cases invariant with
  | searching control all passed nothing =>
      apply Invariant.searching (server ▸ control)
      · rw [more, all, tmpqueue, incoming, List.append_assoc]
      · rw [tmpqueue]
        exact passed
      · rw [node, nothing]
  | found control taken takes response =>
      apply Invariant.found (server ▸ control) taken
      · rw [more, tmpqueue, incoming]
        exact takes.append arrival
      · rw [node, response]
  | joined control before after taken takes response rest =>
      apply Invariant.joined (server ▸ control) before (after ++ arrival)
        taken
      · rw [more]
        exact takes.append arrival
      · rw [node, response]
      · rw [incoming, rest, List.append_assoc]
  | fault control => exact .fault (server.trans control)

/-- One iteration of the scan. -/
theorem invariant_scanNode
    (standing : config.server = .scan)
    (invariant : Invariant instr nodes config)
    (outcome : ScanOutcome instr config next) :
    Invariant instr nodes next := by
  cases invariant with
  | found control => simp [standing, Found] at control
  | joined control => simp [standing, Joined] at control
  | fault control => simp [standing] at control
  | searching control all passed nothing =>
      cases outcome with
      | exhausted empty => exact .searching rfl all passed nothing
      | undecodable currentnode rest front check => exact .fault rfl
      | response currentnode rest front check =>
          refine .found rfl currentnode ?_ ?_
          · refine ⟨?_, passed, Or.inl check⟩
            rw [← front]
            exact all
          · rw [response, if_pos check]
      | exit currentnode rest front other check =>
          refine .found rfl currentnode ?_ ?_
          · refine ⟨?_, passed, Or.inr check⟩
            rw [← front]
            exact all
          · rw [response, if_neg (by simp [other])]
            exact nothing
      | passed currentnode rest front other check =>
          refine .searching control ?_ ?_ nothing
          · show offered nodes config =
              config.tmpqueue.nodes ++ [currentnode] ++ rest
            rw [all, front, List.append_assoc, List.singleton_append]
          · intro buffer member
            rcases List.mem_append.mp member with earlier | latest
            · exact passed buffer earlier
            · rw [List.mem_singleton.mp latest]
              exact ⟨other, check⟩

/-- The temporary queue comes back in front. -/
theorem invariant_prependTmpqueue
    (standing : config.server = .prepend)
    (invariant : Invariant instr nodes config) :
    Invariant instr nodes (prependTmpqueue config) := by
  cases invariant with
  | searching control => simp [standing, Searching] at control
  | joined control => simp [standing, Joined] at control
  | fault control => simp [standing] at control
  | found control taken takes node =>
      rw [prependTmpqueue_eq]
      exact .joined trivial _ _ taken takes node rfl

theorem invariant_freeTmpqueue
    (standing : config.server = .free)
    (invariant : Invariant instr nodes config) :
    Invariant instr nodes (freeTmpqueue config) := by
  cases invariant with
  | searching control => simp [standing, Searching] at control
  | found control => simp [standing, Found] at control
  | fault control => simp [standing] at control
  | joined control before after taken takes node rest =>
      exact .joined trivial before after taken takes node rest

/-- One step keeps track of every instruction. -/
theorem invariant_of_step
    (invariant : Invariant instr nodes config)
    (stepped : step instr config action = some next) :
    Invariant instr nodes next := by
  rcases step_cases stepped with ⟨healthy, transition⟩
  cases transition with
  | serverFinish code inside ended =>
      rcases phases_finish config.server with ⟨searching, found, joined⟩
      exact invariant.of_control rfl rfl rfl rfl searching found joined
        fun fault => absurd fault healthy
  | serverCall code inside advanced made =>
      rcases phases_resume advanced.code with ⟨searching, found, joined⟩
      exact invariant.of_control rfl rfl rfl rfl searching found joined
        fun fault => absurd fault healthy
  | scan standing =>
      exact invariant_scanNode standing invariant (scanNode_cases ..)
  | prepend standing => exact invariant_prependTmpqueue standing invariant
  | free standing => exact invariant_freeTmpqueue standing invariant
  | recieve number instruction standing =>
      exact invariant.of_control rfl rfl rfl rfl id id id id
  | recieverFinish number granted code inside ended =>
      exact invariant.of_control rfl rfl rfl rfl id id id id
  | recieverCall number granted code inside advanced made =>
      exact invariant.of_control rfl rfl rfl rfl id id id id
  | add number granted instruction standing =>
      cases granted with
      | false => exact invariant.of_control rfl rfl rfl rfl id id id id
      | true => exact invariant.arrive rfl rfl rfl rfl rfl

theorem invariant_called (instr : CString) (nodes : List Bytes) :
    Invariant instr nodes (called nodes : Config count) := by
  refine .searching trivial ?_ (fun _ member => nomatch member) rfl
  show nodes ++ [] = [] ++ nodes
  rw [List.append_nil, List.nil_append]

/-- What a call which has returned has taken. -/
theorem takes_of_returned
    {actions : List (Action count)}
    (ran : run (step instr) (called nodes) actions = some config)
    (returned : config.server = .returned) :
    ∃ before after found,
      Takes instr (offered nodes config) before after found ∧
        config.node = response instr found ∧
        config.incoming.nodes = before ++ after := by
  have invariant : Invariant instr nodes config :=
    run_invariant
      (fun _ _ _ holds stepped => invariant_of_step holds stepped)
      (invariant_called instr nodes) ran
  cases invariant with
  | searching control => simp [returned, Searching] at control
  | found control => simp [returned, Found] at control
  | joined control before after found takes node rest =>
      exact ⟨before, after, found, takes, node, rest⟩
  | fault control => simp [returned] at control

/-! ## The removed instruction -/

/-- The instruction is named like the awaited one or like the exit signal. -/
def Ends (instr : CString) (buffer : Bytes) : Prop :=
  instrOf buffer = some instr.val ∨
    instrOf buffer = some wimpInstructionExit

/-- A check of a decodable instruction compares its name. -/
theorem nodeCheck_of_instrOf
    {buffer name text : Bytes} (nulFree : NulFree text)
    (named : instrOf buffer = some name) :
    nodeCheck buffer text = some (decide (name = text)) := by
  simp only [instrOf, Option.bind_eq_bind, Option.bind_eq_some_iff] at named
  rcases named with ⟨result, read, pointer, points, name_⟩
  have wanted : cString (terminated text) = some text := by
    rw [← List.append_nil (terminated text)]
    exact cString_terminated nulFree []
  simp only [nodeCheck, read, points, Option.bind_eq_bind,
    Option.bind_some]
  exact strcmpEq_of_cString name_ wanted

theorem nulFree_wimpInstructionExit : NulFree wimpInstructionExit := by
  decide

theorem nodeCheck_eq_true_iff
    {buffer text : Bytes} (nulFree : NulFree text)
    (decodable : (instrOf buffer).isSome) :
    nodeCheck buffer text = some true ↔ instrOf buffer = some text := by
  rcases Option.isSome_iff_exists.mp decodable with ⟨name, named⟩
  rw [nodeCheck_of_instrOf nulFree named, named]
  simp

/-- For decodable instructions, both loops of the claim see the same name. -/
theorem answers_iff_ends
    {buffer : Bytes} (decodable : (instrOf buffer).isSome) :
    Answers instr buffer ↔ Ends instr buffer := by
  unfold Answers Ends
  rw [nodeCheck_eq_true_iff instr.2 decodable,
    nodeCheck_eq_true_iff nulFree_wimpInstructionExit decodable]

theorem Passed.not_answers
    {buffer : Bytes} (passed : Passed instr buffer) :
    ¬ Answers instr buffer := by
  rcases passed with ⟨other, stays⟩
  simp [Answers, other, stays]

/--
A call which returns has removed exactly the first instruction, in the order
of arrival, that is named like the awaited one or like the exit signal.  It
returns that instruction when it has the awaited name, and the others stay in
their order.
-/
theorem removed_of_returned
    {actions : List (Action count)}
    (ran : run (step instr) (called nodes) actions = some config)
    (returned : config.server = .returned)
    (decodable :
      ∀ buffer ∈ offered nodes config, (instrOf buffer).isSome) :
    ∃ index found,
      (offered nodes config)[index]? = some found ∧
        Ends instr found ∧
        (∀ buffer ∈ (offered nodes config).take index,
          ¬ Ends instr buffer) ∧
        config.node =
          (if instrOf found = some instr.val then some found else none) ∧
        config.incoming.nodes = (offered nodes config).eraseIdx index := by
  rcases takes_of_returned ran returned with
    ⟨before, after, found, ⟨split, passed, answers⟩, node, rest⟩
  have decoded : (instrOf found).isSome := by
    apply decodable
    rw [split]
    exact List.mem_append_right _ (List.mem_cons_self ..)
  refine ⟨before.length, found, ?_, ?_, ?_, ?_, ?_⟩
  · rw [split, List.getElem?_append_right (Nat.le_refl _), Nat.sub_self]
    rfl
  · exact (answers_iff_ends decoded).mp answers
  · intro buffer member
    have earlier : buffer ∈ before := by
      rwa [split, List.take_left] at member
    have readable : (instrOf buffer).isSome := by
      apply decodable
      rw [split]
      exact List.mem_append_left _ earlier
    rw [← answers_iff_ends readable]
    exact (passed buffer earlier).not_answers
  · rw [node, response]
    simp only [nodeCheck_eq_true_iff instr.2 decoded]
  · rw [rest, split, List.eraseIdx_append_of_length_le (Nat.le_refl _),
      Nat.sub_self]
    rfl

/-- The instructions `y`, `x` and `z`, of which `x` is awaited. -/
def threeNamed : List Bytes :=
  [named [0x79], named [0x78], named [0x7a]]

/-- The second of three instructions is taken. -/
theorem removed_second :
    ∃ config : Config 0,
      run (step (.ofBytes [0x78])) (called threeNamed)
          (List.replicate 20 .server) = some config ∧
        ∃ index found,
          (offered threeNamed config)[index]? = some found ∧
            Ends (.ofBytes [0x78]) found ∧
            (∀ buffer ∈ (offered threeNamed config).take index,
              ¬ Ends (.ofBytes [0x78]) buffer) ∧
            config.node =
              (if instrOf found = some [0x78] then some found else none) ∧
            config.incoming.nodes =
              (offered threeNamed config).eraseIdx index := by
  have last :
      (run (step (.ofBytes [0x78])) (called threeNamed : Config 0)
            (List.replicate 20 .server)).map
          (fun config => (config.server, config.arrived)) =
        some (.returned, []) := by
    decide +kernel
  rcases Option.map_eq_some_iff.mp last with ⟨config, ran, left⟩
  rcases Prod.mk.inj left with ⟨returned, arrived⟩
  refine ⟨config, ran, removed_of_returned ran returned ?_⟩
  rw [offered, arrived]
  decide +kernel

/-! ## Instructions in transit -/

/-- The instruction is not addressed to the server. -/
def Foreign (processName : CString) (buffer : Bytes) : Prop :=
  destOf buffer ≠ some processName.val

instance (processName : CString) (buffer : Bytes) :
    Decidable (Foreign processName buffer) :=
  inferInstanceAs (Decidable (¬ _))

/--
Every instruction for another process is still queued, in order, and only an
instruction for the server itself was returned or consumed.
-/
structure Untouched (processName : CString) (all : List Bytes)
    (config : Config count) : Prop where
  kept :
    config.incoming.nodes.filter (Foreign processName ·) =
      all.filter (Foreign processName ·)
  returned : ∀ buffer ∈ config.node, ¬ Foreign processName buffer

/-- The first instruction which ends the wait is the one that is taken. -/
theorem Takes.find
    {all before after : List Bytes} {found : Bytes}
    (takes : Takes instr all before after found) :
    all.find? (Answers instr ·) = some found := by
  rcases takes with ⟨split, passed, answers⟩
  rw [List.find?_eq_some_iff_append]
  refine ⟨by simpa using answers, before, after, split, ?_⟩
  intro buffer member
  simpa using (passed buffer member).not_answers

/--
A call which returns leaves the instructions in transit alone exactly when
the first instruction that is named like the awaited one or like the exit
signal is addressed to the server.
-/
theorem untouched_iff
    (processName : CString) {actions : List (Action count)}
    (ran : run (step instr) (called nodes) actions = some config)
    (returned : config.server = .returned) :
    Untouched processName (offered nodes config) config ↔
      ∀ buffer ∈ (offered nodes config).find? (Answers instr ·),
        ¬ Foreign processName buffer := by
  rcases takes_of_returned ran returned with
    ⟨before, after, found, takes, node, rest⟩
  have first := takes.find
  have split := takes.split
  have taken :
      (∀ buffer ∈ (offered nodes config).find? (Answers instr ·),
          ¬ Foreign processName buffer) ↔
        ¬ Foreign processName found := by
    rw [first]
    simp
  rw [taken]
  constructor
  · rintro ⟨kept, -⟩ foreign
    -- the filtered queue has lost the taken instruction
    rw [rest, split] at kept
    have lengths := congrArg List.length kept
    simp [foreign] at lengths
  · intro own
    constructor
    · rw [rest, split]
      simp [own]
    · intro buffer member
      rw [node, response] at member
      split at member
      · cases member
        exact own
      · cases member

/-- The awaited instruction is addressed to the server `a`. -/
theorem untouched_own :
    ∃ config : Config 0,
      run (step (.ofBytes [0x78])) (called threeNamed)
          (List.replicate 20 .server) = some config ∧
        (Untouched (.ofBytes [0x61]) (offered threeNamed config) config ↔
          ∀ buffer ∈
            (offered threeNamed config).find? (Answers (.ofBytes [0x78]) ·),
            ¬ Foreign (.ofBytes [0x61]) buffer) := by
  have last :
      (run (step (.ofBytes [0x78])) (called threeNamed : Config 0)
            (List.replicate 20 .server)).map Config.server =
        some .returned := by
    decide +kernel
  rcases Option.map_eq_some_iff.mp last with ⟨config, ran, returned⟩
  exact ⟨config, ran, untouched_iff (.ofBytes [0x61]) ran returned⟩

/--
The server `c` waits for `x` while an instruction `x` for `a` waits to be
routed: the call returns it, and it is gone from the queue.
-/
theorem not_untouched_transit :
    ∃ config : Config 0,
      run (step (.ofBytes [0x78])) (called [named [0x78]])
          (List.replicate 19 .server) = some config ∧
        config.server = .returned ∧
        config.node = some (named [0x78]) ∧
        ¬ Untouched (.ofBytes [0x63]) (offered [named [0x78]] config)
          config := by
  have last :
      (run (step (.ofBytes [0x78])) (called [named [0x78]] : Config 0)
            (List.replicate 19 .server)).map
          (fun config => (config.server, config.node)) =
        some (.returned, some (named [0x78])) := by
    decide +kernel
  rcases Option.map_eq_some_iff.mp last with ⟨config, ran, left⟩
  rcases Prod.mk.inj left with ⟨returned, node⟩
  refine ⟨config, ran, returned, node, fun untouched => ?_⟩
  have own := untouched.returned _ node
  exact own (by decide +kernel)

end Wimp.Server.Response
