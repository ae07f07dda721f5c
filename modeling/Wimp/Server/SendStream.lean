import Wimp.Server.Machine

/-!
# The byte streams of a server

Instructions and pings are the items a server hands to its connections.  The
send loop splits an item into chunks and adds the result of every send call
to its unsigned offset.  A successful call moves the offset past the accepted
bytes; an error moves it one byte back, unless it strikes first, when the
offset wraps to the largest value and the item is left out.

When errors strike only at the first call of an item, and pings are accepted
as a whole or not at all, the accepted bytes of every connection are a prefix
of complete items in order.
-/

namespace Wimp.Server.SendStream

open Wimp.Lib.ByteRegion
open Wimp.Lib.Runs
open Wimp.Instr.Codec
open Wimp.ProcessTable
open Wimp.Utility.HashTable
open Wimp.Server.Machine

/--
The accepted bytes of every connection are a prefix of a concatenation of
items handed to it, in order, possibly with whole items left out.
-/
def StreamIntact (config : Config) : Prop :=
  ∀ connection, ∃ kept : List Bytes,
    kept.Sublist (config.handed connection) ∧
      config.accepted connection <+: kept.flatten

/--
A send call of an instruction fails at most as its first call, a ping is
accepted as a whole or not at all, and the size of an added instruction is a
positive 32-bit integer.
-/
def CleanSend (config : Config) : Action → Prop
  | .add dest instr args _ _ =>
      totalBytes config.server.processName dest instr args < 2 ^ 31
  | .send results _ => -1 ∉ results.tail
  | .ping _ result => ∀ size ∈ result, size = -1 ∨ size = wimpPing.length
  | _ => True

instance (config : Config) (action : Action) :
    Decidable (CleanSend config action) :=
  match action with
  | .add .. => inferInstanceAs (Decidable (_ < _))
  | .receive .. => inferInstanceAs (Decidable True)
  | .read .. => inferInstanceAs (Decidable True)
  | .send results _ => inferInstanceAs (Decidable (-1 ∉ results.tail))
  | .ping _ result =>
      inferInstanceAs
        (Decidable
          (∀ size ∈ result, size = -1 ∨ size = wimpPing.length))

/-! ## The send loop -/

/-- What one iteration of the send loop does. -/
inductive LoopOutcome (buffer : Bytes) (totalBytes sentBytes : Nat) :
    List Int → Sent → Prop where
  | finished (done : totalBytes ≤ sentBytes) :
      LoopOutcome buffer totalBytes sentBytes [] ⟨[], .finished⟩
  | outOfBounds (more : sentBytes < totalBytes)
      (outside :
        slice buffer sentBytes (bytesToSend totalBytes sentBytes) = none) :
      LoopOutcome buffer totalBytes sentBytes [] ⟨[], .outOfBounds⟩
  | blocked (more : sentBytes < totalBytes) :
      LoopOutcome buffer totalBytes sentBytes [] ⟨[], .blocked⟩
  | continued (chunk : Bytes) (sendres : Int) (rest : List Int)
      (tail : Sent)
      (more : sentBytes < totalBytes)
      (sliced :
        slice buffer sentBytes (bytesToSend totalBytes sentBytes) =
          some chunk)
      (admissible : SendResult chunk.length sendres)
      (loop :
        sendLoop buffer totalBytes
            (addSizeT sentBytes (toSizeT sendres)) rest =
          some tail) :
      LoopOutcome buffer totalBytes sentBytes (sendres :: rest)
        { tail with accepted := chunk.take sendres.toNat ++ tail.accepted }

theorem sendLoop_cases
    {buffer : Bytes} {totalBytes sentBytes : Nat} {results : List Int}
    {sent : Sent}
    (loop : sendLoop buffer totalBytes sentBytes results = some sent) :
    LoopOutcome buffer totalBytes sentBytes results sent := by
  unfold sendLoop at loop
  by_cases more : sentBytes < totalBytes
  · rw [if_pos more] at loop
    split at loop
    · rename_i outside
      split_ifs at loop with nothing
      rcases Option.some.inj loop with rfl
      rw [nothing]
      exact .outOfBounds more outside
    · rename_i chunk sliced
      split at loop
      · rcases Option.some.inj loop with rfl
        exact .blocked more
      · split_ifs at loop with admissible
        rcases Option.map_eq_some_iff.mp loop with ⟨tail, tailLoop, rfl⟩
        exact .continued chunk _ _ tail more sliced admissible tailLoop
  · rw [if_neg more] at loop
    split_ifs at loop with nothing
    rcases Option.some.inj loop with rfl
    rw [nothing]
    exact .finished (not_lt.mp more)

/-- Without errors, the loop gets the buffer accepted from its offset on. -/
theorem sendLoop_of_clean
    {buffer : Bytes} {totalBytes sentBytes : Nat} {results : List Int}
    {sent : Sent}
    (clean : -1 ∉ results)
    (small : buffer.length < 2 ^ 64)
    (inside : sentBytes ≤ buffer.length)
    (covered : buffer.length ≤ totalBytes)
    (loop : sendLoop buffer totalBytes sentBytes results = some sent) :
    sent.accepted <+: buffer.drop sentBytes ∧
      (sent.status = .finished →
        sent.accepted = buffer.drop sentBytes) := by
  induction results generalizing sentBytes sent with
  | nil =>
      cases sendLoop_cases loop with
      | finished done =>
          refine ⟨List.nil_prefix, fun _ => ?_⟩
          rw [List.drop_eq_nil_of_le (by omega)]
      | outOfBounds more outside => exact ⟨List.nil_prefix, by simp⟩
      | blocked more => exact ⟨List.nil_prefix, by simp⟩
  | cons sendres rest induction =>
      cases sendLoop_cases loop with
      | continued chunk _ _ tail more sliced admissible tailLoop =>
          rw [List.mem_cons, not_or] at clean
          unfold slice at sliced
          split_ifs at sliced with fits
          rcases Option.some.inj sliced with rfl
          have positive : 1 ≤ sendres :=
            (admissible.resolve_left (Ne.symm clean.1)).1
          have bounded :
              sendres.toNat ≤ bytesToSend totalBytes sentBytes := by
            have upper := (admissible.resolve_left (Ne.symm clean.1)).2
            rw [List.length_take] at upper
            omega
          have offset :
              addSizeT sentBytes (toSizeT sendres) =
                sentBytes + sendres.toNat := by
            have converted : toSizeT sendres = sendres.toNat := by
              unfold toSizeT
              omega
            rw [converted, addSizeT_of_lt (by omega)]
          rw [offset] at tailLoop
          rcases induction clean.2 (by omega) tailLoop with ⟨isPrefix, whole⟩
          rw [List.take_take, Nat.min_eq_left bounded]
          have split :
              buffer.drop sentBytes =
                (buffer.drop sentBytes).take sendres.toNat ++
                  buffer.drop (sentBytes + sendres.toNat) := by
            rw [← List.drop_drop, List.take_append_drop]
          constructor
          · conv_rhs => rw [split]
            exact (List.prefix_append_right_inj _).mpr isPrefix
          · intro finished
            rw [whole finished]
            exact split.symm

/-- An error at the first call leaves the item out. -/
theorem sendLoop_of_failed
    {buffer : Bytes} {totalBytes : Nat} {results : List Int} {sent : Sent}
    (small : totalBytes < 2 ^ 64)
    (loop : sendLoop buffer totalBytes 0 (-1 :: results) = some sent) :
    sent.accepted = [] ∧ sent.status = .finished := by
  cases sendLoop_cases loop with
  | continued chunk _ _ tail more sliced admissible tailLoop =>
      have wrapped : addSizeT 0 (toSizeT (-1)) = 2 ^ 64 - 1 := by decide
      rw [wrapped] at tailLoop
      -- the offset is the largest one, so the loop ends
      cases sendLoop_cases tailLoop with
      | finished done => simp
      | outOfBounds more outside => omega
      | blocked more => omega
      | continued chunk sendres rest tail more sliced admissible loop =>
          omega

/--
With a failure at the first call at most, the loop gets a prefix of the item
accepted, and all or nothing of it when it finishes.
-/
theorem sendLoop_of_cleanSend
    {buffer : Bytes} {totalBytes : Nat} {results : List Int} {sent : Sent}
    (clean : -1 ∉ results.tail)
    (small : totalBytes < 2 ^ 64)
    (covered : buffer.length ≤ totalBytes)
    (loop : sendLoop buffer totalBytes 0 results = some sent) :
    sent.accepted <+: buffer ∧
      (sent.status = .finished →
        sent.accepted = buffer ∨ sent.accepted = []) := by
  by_cases failed : results.head? = some (-1)
  · rcases List.head?_eq_some_iff.mp failed with ⟨rest, rfl⟩
    have left := (sendLoop_of_failed small loop).1
    exact ⟨left ▸ List.nil_prefix, fun _ => Or.inr left⟩
  · have noErrors : -1 ∉ results := by
      intro member
      cases results with
      | nil => cases member
      | cons sendres rest =>
          rcases List.mem_cons.mp member with rfl | later
          · exact failed rfl
          · exact clean later
    have sentOff := sendLoop_of_clean noErrors (by omega) (Nat.zero_le _)
      covered loop
    rw [List.drop_zero] at sentOff
    exact ⟨sentOff.1, fun finished => Or.inl (sentOff.2 finished)⟩

/-! ## The invariant -/

/-- A buffer is as long as the size stored in its header. -/
def Covered (buffer : Bytes) : Prop :=
  ∀ total, int32At buffer 0 = some total → buffer.length = toSizeT total

/-- What the accepted bytes of a connection are made of. -/
def StreamAt (config : Config) (connection : PSocket) : Prop :=
  ∃ kept : List Bytes,
    kept.Sublist (config.handed connection) ∧
      config.accepted connection <+: kept.flatten ∧
      (config.control = .ready →
        config.accepted connection = kept.flatten)

/--
Between two calls the streams end with a complete item, and the headers of
the live buffers count all of their bytes.
-/
structure Invariant (config : Config) : Prop where
  covered : ∀ address block, config.heap address = some block → Covered block
  streams : ∀ connection, StreamAt config connection

theorem streamIntact_of_invariant
    {config : Config} (invariant : Invariant config) :
    StreamIntact config := by
  intro connection
  rcases invariant.streams connection with ⟨kept, sublist, isPrefix, -⟩
  exact ⟨kept, sublist, isPrefix⟩

/-- A header counts the bytes of a formatted instruction. -/
theorem covered_instrBytes
    {process dest instr args : Bytes}
    (small : totalBytes process dest instr args < 2 ^ 31) :
    Covered (instrBytes process dest instr args) := by
  intro total word
  have header := int32At_append []
    (instrBytes process dest instr args)
    (by rw [length_instrBytes, totalBytes]; omega)
  rw [List.nil_append, List.length_nil] at header
  rw [header, Option.some.injEq, instrBytes,
    List.take_left' (length_toLE 4 _), ofLE_toLE_of_lt (by omega),
    toInt32_of_lt small] at word
  rw [← word, length_instrBytes, toSizeT_natCast (by omega)]

theorem covered_of_headerCounts
    {instruction : Bytes} (counts : HeaderCounts instruction) :
    Covered instruction := by
  intro total word
  rw [HeaderCounts, word, Option.some.injEq] at counts
  have upper : (instruction.length : Int) < 2 ^ 31 := by
    unfold int32At at word
    rcases Option.map_eq_some_iff.mp word with ⟨bytes, -, rfl⟩
    rw [← counts]
    exact toInt32_lt _
  rw [counts, toSizeT_natCast (by omega)]

/-- A header which is decoded counts all bytes of the buffer. -/
theorem length_le_totalBytes
    {config : Config} (invariant : Invariant config)
    {node : WimpInstrNode} {buffer dest : Bytes} {result : WimpInstrMeta}
    (decoded : nodeDest config.heap node = .ok (buffer, result, dest)) :
    buffer.length ≤ result.totalBytes ∧ result.totalBytes < 2 ^ 64 := by
  rcases live_of_nodeDest decoded with ⟨address, -, live, read, named⟩
  unfold destProcess at named
  split at named
  · cases named
  · rename_i pointer points
    rcases header_of_read read points with ⟨-, total, word, size⟩
    rw [size]
    exact
      ⟨(invariant.covered address buffer live total word).le, toSizeT_lt _⟩

/-! ## Preservation -/

/-- Neither the logs nor the end of the thread depend on other fields. -/
theorem Invariant.congr
    {config next : Config} (invariant : Invariant config)
    (covered :
      ∀ address block, next.heap address = some block → Covered block)
    (handed : next.handed = config.handed)
    (accepted : next.accepted = config.accepted)
    (control : next.control = .ready → config.control = .ready) :
    Invariant next where
  covered := covered
  streams := fun connection => by
    rcases invariant.streams connection with ⟨kept, sublist, isPrefix, whole⟩
    refine ⟨kept, ?_, ?_, ?_⟩
    · rw [handed]
      exact sublist
    · rw [accepted]
      exact isPrefix
    · intro ready
      rw [accepted]
      exact whole (control ready)

/-- Blocks are released or allocated with a truthful header. -/
private theorem covered_update
    {heap : Heap}
    (covered : ∀ address block, heap address = some block → Covered block)
    (address : Address) {content : Option Bytes}
    (truthful : ∀ block ∈ content, Covered block) :
    ∀ other block,
      Function.update heap address content other = some block →
        Covered block := by
  intro other block found
  rcases eq_or_ne other address with rfl | different
  · rw [Function.update_self] at found
    exact truthful block found
  · rw [Function.update_of_ne different] at found
    exact covered other block found

/-- An item of which a prefix was accepted ends the stream. -/
private theorem stream_cut
    {config : Config} (invariant : Invariant config)
    (ready : config.control = .ready)
    (target : PSocket) {item accepted : Bytes}
    (isPrefix : accepted <+: item) (connection : PSocket) :
    ∃ kept : List Bytes,
      kept.Sublist
          ((config.transmit target item accepted).handed connection) ∧
        (config.transmit target item accepted).accepted connection <+:
          kept.flatten := by
  rcases invariant.streams connection with ⟨kept, sublist, -, whole⟩
  have equal := whole ready
  rcases eq_or_ne connection target with rfl | different
  · simp only [Config.transmit, Function.update_self, equal]
    refine ⟨kept ++ [item], sublist.append_right _, ?_⟩
    rw [List.flatten_append, List.flatten_singleton]
    exact (List.prefix_append_right_inj _).mpr isPrefix
  · simp only [Config.transmit, Function.update_of_ne different, equal]
    exact ⟨kept, sublist, List.prefix_rfl⟩

/-- An item which was accepted as a whole, or left out, ends the stream. -/
private theorem stream_whole
    {config : Config} (invariant : Invariant config)
    (ready : config.control = .ready)
    (target : PSocket) {item accepted : Bytes}
    (whole : accepted = item ∨ accepted = []) (connection : PSocket) :
    ∃ kept : List Bytes,
      kept.Sublist
          ((config.transmit target item accepted).handed connection) ∧
        (config.transmit target item accepted).accepted connection =
          kept.flatten := by
  rcases invariant.streams connection with ⟨kept, sublist, -, complete⟩
  have equal := complete ready
  rcases eq_or_ne connection target with rfl | different
  · simp only [Config.transmit, Function.update_self, equal]
    rcases whole with rfl | rfl
    · exact ⟨kept ++ [accepted], sublist.append_right _, by simp⟩
    · exact ⟨kept, sublist.trans (List.sublist_append_left _ _), by simp⟩
  · simp only [Config.transmit, Function.update_of_ne different]
    exact ⟨kept, sublist, equal⟩

/-- A completely accepted or left out item keeps the invariant. -/
private theorem invariant_transmit
    {config : Config} (invariant : Invariant config)
    (ready : config.control = .ready)
    (target : PSocket) {item accepted : Bytes}
    (whole : accepted = item ∨ accepted = []) :
    Invariant (config.transmit target item accepted) where
  covered := invariant.covered
  streams := fun connection => by
    rcases stream_whole invariant ready target whole connection with
      ⟨kept, sublist, equal⟩
    exact ⟨kept, sublist, equal ▸ List.prefix_rfl, fun _ => equal⟩

/-- A partly accepted item keeps the invariant when nothing follows it. -/
private theorem invariant_cut
    {config next : Config} (invariant : Invariant config)
    (ready : config.control = .ready)
    (target : PSocket) {item accepted : Bytes}
    (isPrefix : accepted <+: item)
    (heap : next.heap = config.heap)
    (handed :
      next.handed = (config.transmit target item accepted).handed)
    (log :
      next.accepted = (config.transmit target item accepted).accepted)
    (dead : next.control ≠ .ready) :
    Invariant next where
  covered := by
    rw [heap]
    exact invariant.covered
  streams := fun connection => by
    rcases stream_cut invariant ready target isPrefix connection with
      ⟨kept, sublist, cut⟩
    rw [← handed] at sublist
    rw [← log] at cut
    exact ⟨kept, sublist, cut, fun ready => absurd ready dead⟩

/-- The end of an iteration of the send loop touches no stream. -/
private theorem invariant_released
    {config : Config} (invariant : Invariant config)
    (node : WimpInstrNode) (rest : List WimpInstrNode) :
    Invariant (releaseNode config node rest) := by
  unfold releaseNode
  split
  · exact invariant.congr invariant.covered rfl rfl (by simp [Config.fail])
  · rename_i heap freed
    refine invariant.congr ?_ rfl rfl id
    unfold wimpInstrNodeFree at freed
    split at freed
    · rw [Except.ok.injEq] at freed
      rw [← freed]
      exact invariant.covered
    · split_ifs at freed
      rw [Except.ok.injEq] at freed
      rw [← freed]
      exact covered_update invariant.covered _ (by simp)

private theorem invariant_added
    {config : Config} (invariant : Invariant config)
    {dest instr : CString} {args : Bytes} (block : Option Address)
    (granted : Bool)
    (small : totalBytes config.server.processName dest instr args < 2 ^ 31) :
    Invariant (wimpServerAdd config dest instr args block granted) := by
  cases block with
  | none => exact invariant.congr invariant.covered rfl rfl id
  | some address =>
      rw [wimpServerAdd_granted]
      refine invariant.congr ?_ rfl rfl id
      refine covered_update invariant.covered address ?_
      intro block bundle
      rcases Option.some.inj bundle with rfl
      exact covered_instrBytes small

private theorem invariant_read
    {config next : Config} (invariant : Invariant config)
    {node : WimpInstrNode} {rest : List WimpInstrNode}
    (outcome : ReadOutcome config node rest next) :
    Invariant next := by
  cases outcome with
  | routed buffer dest result decoded foreign =>
      exact invariant.congr invariant.covered rfl rfl id
  | consumed buffer dest result heap decoded own freed =>
      refine invariant.congr ?_ rfl rfl id
      rcases live_of_nodeDest decoded with ⟨address, points, live, -, -⟩
      rw [wimpInstrNodeFree_of_live points live, Except.ok.injEq] at freed
      rw [← freed]
      exact covered_update invariant.covered address (by simp)
  | faulted fault failed =>
      exact invariant.congr invariant.covered rfl rfl (by simp [Config.fail])
  | doubleFree buffer dest result fault decoded freed =>
      exact invariant.congr invariant.covered rfl rfl (by simp [Config.fail])

private theorem invariant_sent
    {config next : Config} (invariant : Invariant config)
    (ready : config.control = .ready)
    {node : WimpInstrNode} {rest : List WimpInstrNode}
    {results : List Int} {granted : Bool}
    (clean : -1 ∉ results.tail)
    (outcome : SendOutcome config node rest granted results next) :
    Invariant next := by
  cases outcome with
  | faulted fault failed =>
      exact invariant.congr invariant.covered rfl rfl (by simp [Config.fail])
  | looped buffer dest result decoded own =>
      refine invariant_released ?_ node rest
      exact invariant.congr invariant.covered rfl rfl id
  | dropped buffer dest result decoded foreign unreachable =>
      exact invariant_released invariant node rest
  | transmitted buffer dest result data results sent decoded foreign
      target active loop =>
      rcases length_le_totalBytes invariant decoded with ⟨covered, small⟩
      rcases sendLoop_of_cleanSend clean small covered loop with
        ⟨isPrefix, whole⟩
      cases status : sent.status with
      | finished =>
          exact invariant_released
            (invariant_transmit invariant ready data.processConnection
              (whole status)) node rest
      | blocked =>
          exact invariant_cut invariant ready data.processConnection
            isPrefix rfl rfl rfl (by simp)
      | outOfBounds =>
          exact invariant_cut invariant ready data.processConnection
            isPrefix rfl rfl rfl (by simp [Config.fail])

private theorem invariant_ping
    {config next : Config} (invariant : Invariant config)
    (ready : config.control = .ready)
    {processName : CString} {result : Option Int}
    (clean : ∀ size ∈ result, size = -1 ∨ size = wimpPing.length)
    (checked :
      wimpServerCheckProcessListening config processName result =
        some next) :
    Invariant next := by
  unfold wimpServerCheckProcessListening at checked
  split at checked
  · split_ifs at checked
    rcases Option.some.inj checked with rfl
    exact invariant
  · rename_i procdat found
    split_ifs at checked
    · split at checked
      · cases checked
      · rename_i size
        have whole :
            wimpPing.take size.toNat = wimpPing ∨
              wimpPing.take size.toNat = [] := by
          rcases clean size rfl with rfl | rfl
          · exact Or.inr rfl
          · exact Or.inl (List.take_length)
        have transmitted :=
          invariant_transmit invariant ready procdat.processConnection
            whole
        dsimp only at checked
        split_ifs at checked
        · rcases Option.some.inj checked with rfl
          exact transmitted
        · split at checked
          · rcases Option.some.inj checked with rfl
            exact transmitted.congr transmitted.covered rfl rfl
              (by simp [Config.fail])
          · rcases Option.some.inj checked with rfl
            exact transmitted.congr transmitted.covered rfl rfl id
    · rcases Option.some.inj checked with rfl
      exact invariant

/-- A clean step keeps the invariant. -/
theorem invariant_of_step
    {config next : Config} {action : Action}
    (invariant : Invariant config) (clean : CleanSend config action)
    (stepped : step config action = some next) :
    Invariant next := by
  cases step_cases stepped with
  | added dest instr args block granted control fresh =>
      exact invariant_added invariant block granted clean
  | received instruction block granted alive free counts =>
      refine invariant.congr ?_ rfl rfl id
      refine covered_update invariant.covered block ?_
      intro content same
      rcases Option.some.inj same with rfl
      exact covered_of_headerCounts counts
  | readNothing control empty => exact invariant
  | read node rest next control queue outcome =>
      exact invariant_read invariant outcome
  | sendNothing granted control empty => exact invariant
  | send node rest results granted next control queue outcome =>
      exact invariant_sent invariant control clean outcome
  | ping processName result next control checked =>
      exact invariant_ping invariant control clean checked

/-! ## Whole runs -/

/--
In every clean run the bytes accepted on each connection are a prefix of
complete items.
-/
theorem streamIntact_of_clean
    {server : WimpServer} {actions : List Action} {config : Config}
    (clean : Along step CleanSend (started server) actions)
    (ran : run step (started server) actions = some config) :
    StreamIntact config := by
  refine streamIntact_of_invariant
    (run_induction_along (motive := fun _ config => Invariant config)
      ?_
      (fun _ _ _ _ invariant clean stepped =>
        invariant_of_step invariant clean stepped)
      clean ran)
  constructor
  case covered =>
    intro address block found
    simp [started] at found
  case streams =>
    intro connection
    exact ⟨[], by simp, by simp [started], fun _ => rfl⟩

/-- The server `a`, connected to `b` by the socket 7. -/
def serverAB : WimpServer :=
  { processName := .ofBytes [0x61]
    ptable :=
      { hashTable :=
          (hashStringAdd (hashStringCreate _ _) [0x62]
            { processDomain := [], processPort := 0, processConnection := 7
              processActive := true, processRelation := .child } true).1
        tableLength := 1 } }

/-- An instruction of 14 bytes for `b` is added and sent. -/
def sendsTo (results : List Int) : List Action :=
  [.add (.ofBytes [0x62]) (.ofBytes [0x78]) [] (some 0) true,
    .send results true]

/-- Partial sends without errors. -/
theorem streamIntact_partial :
    ∃ config,
      run step (started serverAB) (sendsTo [5, 9]) = some config ∧
        StreamIntact config := by
  rcases Option.isSome_iff_exists.mp
    (show (run step (started serverAB) (sendsTo [5, 9])).isSome by
      decide +kernel) with ⟨config, ran⟩
  exact ⟨config, ran, streamIntact_of_clean (by decide +kernel) ran⟩

/-- An error behind five accepted bytes sends the fifth byte twice. -/
theorem not_streamIntact_error :
    ∃ config,
      run step (started serverAB) (sendsTo [5, -1, 10]) = some config ∧
        ¬ StreamIntact config := by
  have logs :
      (run step (started serverAB) (sendsTo [5, -1, 10])).map
          (fun config => (config.handed 7, config.accepted 7)) =
        some
          ([instrBytes [0x61] [0x62] [0x78] []],
            (instrBytes [0x61] [0x62] [0x78] []).take 5 ++
              (instrBytes [0x61] [0x62] [0x78] []).drop 4) := by
    decide +kernel
  rcases Option.map_eq_some_iff.mp logs with ⟨config, ran, left⟩
  rcases Prod.mk.inj left with ⟨handed, accepted⟩
  refine ⟨config, ran, fun intact => ?_⟩
  rcases intact 7 with ⟨kept, sublist, isPrefix⟩
  rw [handed] at sublist
  rw [accepted] at isPrefix
  rcases List.sublist_singleton.mp sublist with rfl | rfl
  · revert isPrefix
    decide +kernel
  · revert isPrefix
    decide +kernel

end Wimp.Server.SendStream
