import Wimp.Lib.Runs
import Wimp.Server.Machine

/-!
# Accepting connections

`wimp_server_process_accept` waits for as many connections as it expects
processes.  Each connection sends one handshake: a header of two words and the
name of the process.  All handshakes are received into the one buffer of the
server, which is cleared only after an accepted handshake, and the name is
read from it as a string, whatever the number of bytes received.

One round of the accept loop is a step of a transition system.  The labels are
what arrives at the socket of the server; the log of the activations is a
record for the properties and is never read by the code.
-/

namespace Wimp.Server.Accept

open Wimp.Lib.ByteRegion
open Wimp.Lib.Runs
open Wimp.ProcessTable
open Wimp.Server.Machine
open Wimp.Reciever.Machine (wimpMessageBufferBytes)

/-! ## Handshakes -/

/-- `WIMP_RECIEVER_HANDSHAKE`. -/
def wimpRecieverHandshake : Nat := 0x706d6977

/-- The bytes of `WIMP_RECIEVER_HANDSHAKE`. -/
def handshakeHeader : Bytes := toLE 4 wimpRecieverHandshake

/-- `sizeof(WimpHandshakeHeader)`. -/
def sizeofHandshakeHeader : Nat := 8

/-- `WimpMsgBuffer`. -/
abbrev WimpMsgBuffer :=
  { bytes : Bytes // bytes.length = wimpMessageBufferBytes }

/-- A buffer after `WIMP_ZERO_BUFFER`. -/
def wimpZeroBuffer : WimpMsgBuffer :=
  ⟨List.replicate wimpMessageBufferBytes 0, List.length_replicate⟩

/-- The bytes of one receive call which returned a positive size. -/
abbrev Handshake :=
  { bytes : Bytes //
    0 < bytes.length ∧ bytes.length ≤ wimpMessageBufferBytes }

/-- The buffer after `p_socket_receive`; its end keeps what it held. -/
def pSocketReceive (recbuffer : WimpMsgBuffer) (handshake : Handshake) :
    WimpMsgBuffer :=
  ⟨handshake.val ++ recbuffer.val.drop handshake.val.length, by
    have length := recbuffer.property
    have fits := handshake.property.2
    rw [List.length_append, List.length_drop, length]
    omega⟩

/--
`wimp_create_handshake` on a cleared buffer, with the bytes which the receiver
sends; a name which overruns the buffer leaves an empty header.  `none` when
the length is negative and `memcpy` runs out of the buffer.
-/
def wimpCreateHandshake (processName : CString) : Option Bytes :=
  let processNameBytes := toInt32 (processName.val.length + 1)
  if addSizeT sizeofHandshakeHeader (toSizeT processNameBytes) <
      wimpMessageBufferBytes then
    if processNameBytes < 0 then none
    else
      some
        (handshakeHeader ++ toLE 4 processNameBytes.toNat ++
          (terminated processName.val).take processNameBytes.toNat)
  else some (List.replicate sizeofHandshakeHeader 0)

/-- A name which fits the buffer is sent whole. -/
theorem wimpCreateHandshake_of_fits
    {processName : CString}
    (fits :
      sizeofHandshakeHeader + (processName.val.length + 1) <
        wimpMessageBufferBytes) :
    wimpCreateHandshake processName =
      some
        (handshakeHeader ++ toLE 4 (processName.val.length + 1) ++
          terminated processName.val) := by
  have small : processName.val.length + 1 < wimpMessageBufferBytes := by
    omega
  have kept : toInt32 (processName.val.length + 1) =
      ((processName.val.length + 1 : Nat) : Int) :=
    toInt32_of_lt (small.trans (by decide))
  have size : toSizeT ((processName.val.length + 1 : Nat) : Int) =
      processName.val.length + 1 :=
    toSizeT_natCast (small.trans (by decide))
  unfold wimpCreateHandshake
  dsimp only
  rw [kept, size, addSizeT_of_lt (fits.trans (by decide)), if_pos fits,
    if_neg (by omega), Int.toNat_natCast,
    List.take_of_length_le (by simp [terminated])]

/-- A name which overruns the buffer leaves an empty header. -/
theorem wimpCreateHandshake_of_overruns
    {processName : CString}
    (short : processName.val.length + 1 < 2 ^ 31)
    (overruns :
      ¬ sizeofHandshakeHeader + (processName.val.length + 1) <
        wimpMessageBufferBytes) :
    wimpCreateHandshake processName =
      some (List.replicate sizeofHandshakeHeader 0) := by
  have size : toSizeT ((processName.val.length + 1 : Nat) : Int) =
      processName.val.length + 1 :=
    toSizeT_natCast (short.trans (by decide))
  have small :
      sizeofHandshakeHeader + (processName.val.length + 1) < 2 ^ 64 := by
    rw [sizeofHandshakeHeader]
    omega
  unfold wimpCreateHandshake
  dsimp only
  rw [toInt32_of_lt short, size, addSizeT_of_lt small, if_neg overruns]

/-! ## Judging a handshake -/

/-- The search for the received name among the expected names. -/
def findExpected (procName : Bytes) :
    List CString → Option (Option CString)
  | [] => some none
  | pname :: pnames =>
      (strcmpEq procName (terminated pname.val)).bind fun equal =>
        if equal then some (some pname) else findExpected procName pnames

/-- What the loop decides about a connection. -/
inductive Verdict where
  | badHeader
  | unexpected
  | missing (procName : CString)
  | accepted (procName : CString)
deriving DecidableEq, Repr

/-- The decision on a correct header, given what the search found. -/
def verdictOf (ptable : WimpProcessTable) : Option CString → Verdict
  | none => .unexpected
  | some procName =>
      if (wimpProcessTableGet ptable (some procName.val)).isSome then
        .accepted procName
      else .missing procName

/--
The decision on the received bytes; `none` when a comparison leaves the
buffer.
-/
def judge (pnames : List CString) (ptable : WimpProcessTable)
    (recbuffer : WimpMsgBuffer) : Option Verdict :=
  if int32At recbuffer.val 0 ≠ some (toInt32 wimpRecieverHandshake) then
    some .badHeader
  else
    (findExpected (recbuffer.val.drop sizeofHandshakeHeader) pnames).map
      (verdictOf ptable)

/-! ## The accept loop -/

/-- `WimpServerResult`. -/
inductive WimpServerResult where
  | success
  | fail
  | addressFail
  | socketFail
  | bindFail
  | listenFail
  | tooFewProcesses
  | unexpectedProcess
deriving DecidableEq, Repr

/-- A process made active by the handshake of a connection. -/
structure Activation where
  procName : CString
  con : PSocket
  handshake : Handshake
deriving DecidableEq, Repr

/--
The locals of `wimp_server_process_accept` and what it changes of the server,
with the sockets handed out so far and the log of the activations.
-/
structure AcceptConfig where
  server : WimpServer
  recbuffer : WimpMsgBuffer
  acceptedCount : Nat := 0
  failureReason : WimpServerResult := .tooFewProcesses
  i : Nat := 0
  sockets : List PSocket := []
  activated : List Activation := []

/--
What one round gets from the network: no connection, a connection without a
handshake, or a connection with its handshake.
-/
inductive Incoming where
  | refused
  | silent (con : PSocket)
  | handshake (con : PSocket) (handshake : Handshake)
deriving DecidableEq, Repr

/-- The connection becomes that of an expected process. -/
def activate (server : WimpServer) (procName : CString) (con : PSocket) :
    WimpServer :=
  { server with
    ptable :=
      server.ptable.modify procName.val fun procdat =>
        { procdat with processConnection := con, processActive := true }
    parent :=
      match wimpProcessTableGet server.ptable (some procName.val) with
      | none => server.parent
      | some procdat =>
          if procdat.processRelation = .parent then
            some (server.parent.getD procName)
          else server.parent }

/-- The round of a connection whose handshake was received. -/
def handle (config : AcceptConfig) (con : PSocket)
    (handshake : Handshake) (recbuffer : WimpMsgBuffer) :
    Verdict → AcceptConfig
  | .badHeader => { config with recbuffer, i := config.i + 1 }
  | .unexpected =>
      -- The index goes back by one and is incremented again.
      { config with recbuffer, failureReason := .unexpectedProcess }
  | .missing _ => { config with recbuffer, i := config.i + 1 }
  | .accepted procName =>
      { config with
        server := activate config.server procName con
        recbuffer := wimpZeroBuffer
        acceptedCount := config.acceptedCount + 1
        i := config.i + 1
        activated :=
          config.activated ++ [{ procName, con, handshake }] }

/--
One round of the loop.  `p_socket_accept` returns a new socket each time;
`none` is a round behind the end of the loop, a socket which is not new, or a
comparison which leaves the buffer.
-/
def acceptStep (pnames : List CString) (config : AcceptConfig)
    (incoming : Incoming) : Option AcceptConfig :=
  if config.i < pnames.length then
    match incoming with
    | .refused => some { config with i := config.i + 1 }
    | .silent con =>
        if con ∈ config.sockets then none
        else
          some
            { config with
              i := config.i + 1
              sockets := config.sockets ++ [con] }
    | .handshake con handshake =>
        if con ∈ config.sockets then none
        else
          let recbuffer := pSocketReceive config.recbuffer handshake
          (judge pnames config.server.ptable recbuffer).map fun verdict =>
            handle { config with sockets := config.sockets ++ [con] } con
              handshake recbuffer verdict
  else none

/-- The loop in front of its first round. -/
def acceptStart (server : WimpServer) (recbuffer : WimpMsgBuffer) :
    AcceptConfig :=
  { server, recbuffer }

/--
`wimp_server_process_accept`, given whether the array of the names is
allocated, whether the socket listens, and what arrives.
-/
def wimpServerProcessAccept (server : WimpServer)
    (recbuffer : WimpMsgBuffer) (pnames : List CString)
    (granted listening : Bool) (arrivals : List Incoming) :
    Option (AcceptConfig × WimpServerResult) :=
  if ¬ granted then
    if arrivals = [] then some (acceptStart server recbuffer, .fail)
    else none
  else if ¬ listening then
    if arrivals = [] then some (acceptStart server recbuffer, .listenFail)
    else none
  else
    (run (acceptStep pnames) (acceptStart server recbuffer) arrivals).bind
      fun config =>
        if config.i < pnames.length then none
        else if config.acceptedCount ≠ pnames.length then
          some (config, config.failureReason)
        else some (config, .success)

/-! ## Headers -/

/-- A header is compared as a word, or byte by byte. -/
theorem int32At_eq_iff
    {object : Bytes} {value : Nat} (large : 4 ≤ object.length)
    (small : value < 2 ^ 32) :
    int32At object 0 = some (toInt32 value) ↔
      object.take 4 = toLE 4 value := by
  have word := int32At_append [] object large
  rw [List.nil_append, List.length_nil] at word
  have wordSmall := ofLE_lt (object.take 4)
  have length : (object.take 4).length = 4 := by
    rw [List.length_take]
    omega
  rw [length] at wordSmall
  rw [word, Option.some.injEq]
  constructor
  · intro equal
    have same : ofLE (object.take 4) = value := by
      unfold toInt32 Int.bmod at equal
      dsimp only at equal
      split_ifs at equal <;> omega
    have round := toLE_ofLE (object.take 4)
    rw [length, same] at round
    exact round.symm
  · intro equal
    rw [equal, ofLE_toLE_of_lt small]

/-- The loop reads an expected name out of a buffer. -/
def Reads (recbuffer : Bytes) (procName : CString) : Prop :=
  recbuffer.take 4 = handshakeHeader ∧
    terminated procName.val <+: recbuffer.drop sizeofHandshakeHeader

instance (recbuffer : Bytes) (procName : CString) :
    Decidable (Reads recbuffer procName) :=
  inferInstanceAs (Decidable (_ ∧ _))

/-! ## Comparing names -/

/-- A comparison succeeds exactly on the terminated string itself. -/
theorem strcmpEq_eq_true
    {object text : Bytes} (textFree : NulFree text) :
    strcmpEq object (terminated text) = some true ↔
      terminated text <+: object := by
  constructor
  · intro equal
    induction object generalizing text with
    | nil => cases text <;> cases equal
    | cons byte rest induction =>
        rcases text with _ | ⟨char, text⟩
        · have zero : byte = 0 := by
            by_contra nonzero
            simp [terminated, strcmpEq, nonzero] at equal
          rw [zero]
          exact ⟨rest, rfl⟩
        · have textFree := (nulFree_cons_iff char text).mp textFree
          rw [terminated, List.cons_append, strcmpEq] at equal
          split at equal
          · rename_i same
            rw [if_neg (same ▸ textFree.1)] at equal
            rw [same, terminated, List.cons_append]
            exact (List.cons_prefix_cons).mpr
              ⟨rfl, induction textFree.2 equal⟩
          · cases equal
  · rintro ⟨rest, rfl⟩
    have compared := strcmpEq_terminated textFree textFree rest []
    rw [List.append_nil] at compared
    rw [compared]
    simp

/-- A found name is expected and stands terminated in the object. -/
theorem findExpected_eq_some
    {procName : Bytes} {pnames : List CString} {pname : CString}
    (found : findExpected procName pnames = some (some pname)) :
    pname ∈ pnames ∧ terminated pname.val <+: procName := by
  induction pnames with
  | nil => cases found
  | cons first rest induction =>
      rcases Option.bind_eq_some_iff.mp found with
        ⟨equal, compared, found⟩
      cases equal with
      | true =>
          cases found
          exact
            ⟨List.mem_cons_self ..,
              (strcmpEq_eq_true pname.property).mp compared⟩
      | false =>
          rcases induction found with ⟨member, reads⟩
          exact ⟨List.mem_cons_of_mem _ member, reads⟩

/-- A terminated name is found where it is expected. -/
theorem findExpected_terminated
    (pnames : List CString) (name : CString) (rest : Bytes) :
    findExpected (terminated name.val ++ rest) pnames =
      some (if name ∈ pnames then some name else none) := by
  induction pnames with
  | nil => rfl
  | cons first others induction =>
      have compared :=
        strcmpEq_terminated name.property first.property rest []
      rw [List.append_nil] at compared
      rw [findExpected, compared, Option.bind_some]
      by_cases same : name = first
      · subst same
        simp
      · have apart : name.val ≠ first.val := fun equal =>
          same (Subtype.ext equal)
        simp [apart, same, induction]

/-! ## Decisions -/

theorem judge_of_bad_header
    (pnames : List CString) (ptable : WimpProcessTable)
    {recbuffer : WimpMsgBuffer}
    (bad : recbuffer.val.take 4 ≠ handshakeHeader) :
    judge pnames ptable recbuffer = some .badHeader := by
  have length := recbuffer.property
  have different :
      int32At recbuffer.val 0 ≠
        some (toInt32 wimpRecieverHandshake) := by
    rw [Ne, int32At_eq_iff (by rw [length]; decide) (by decide)]
    exact bad
  rw [judge, if_pos different]

theorem judge_of_header
    (pnames : List CString) (ptable : WimpProcessTable)
    {recbuffer : WimpMsgBuffer}
    (header : recbuffer.val.take 4 = handshakeHeader) :
    judge pnames ptable recbuffer =
      (findExpected (recbuffer.val.drop sizeofHandshakeHeader)
          pnames).map (verdictOf ptable) := by
  have length := recbuffer.property
  have same :
      int32At recbuffer.val 0 = some (toInt32 wimpRecieverHandshake) :=
    (int32At_eq_iff (by rw [length]; decide) (by decide)).mpr header
  rw [judge, if_neg (by simpa using same)]

/-- The loop accepts an expected name of the table which it reads. -/
theorem judge_eq_accepted_iff
    {pnames : List CString} {ptable : WimpProcessTable}
    {recbuffer : WimpMsgBuffer} {procName : CString} :
    judge pnames ptable recbuffer = some (.accepted procName) ↔
      procName ∈ pnames ∧ Reads recbuffer.val procName ∧
        (wimpProcessTableGet ptable (some procName.val)).isSome := by
  by_cases header : recbuffer.val.take 4 = handshakeHeader
  · rw [judge_of_header pnames ptable header, Option.map_eq_some_iff]
    constructor
    · rintro ⟨found, searched, decided⟩
      cases found with
      | none => cases decided
      | some name =>
          rcases findExpected_eq_some searched with ⟨member, reads⟩
          rw [verdictOf] at decided
          split at decided
          · rename_i present
            rw [Verdict.accepted.injEq] at decided
            subst decided
            exact ⟨member, ⟨header, reads⟩, present⟩
          · cases decided
    · rintro ⟨member, ⟨-, rest, reads⟩, present⟩
      refine ⟨some procName, ?_, if_pos present⟩
      rw [← reads, findExpected_terminated, if_pos member]
  · rw [judge_of_bad_header pnames ptable header]
    constructor
    · nofun
    · rintro ⟨-, reads, -⟩
      exact absurd reads.1 header

end Wimp.Server.Accept
