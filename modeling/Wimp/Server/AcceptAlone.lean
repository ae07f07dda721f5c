import Wimp.Server.Accept

/-!
# Handshakes judged on their own bytes

A connection writes the front of the receive buffer, and the loop judges the
whole buffer.  The decision is that of the received bytes alone when they
already settle it: the header is wrong in one of its received bytes, or it is
complete and the name behind it is terminated, or differs from every expected
name in one of its received bytes.  Otherwise the bytes left by an earlier
connection decide.

The handshake which a receiver of this library sends settles its decision.
-/

namespace Wimp.Server.AcceptAlone

open Wimp.Lib.ByteRegion
open Wimp.Lib.Runs
open Wimp.ProcessTable
open Wimp.Server.Machine
open Wimp.Server.Accept
open Wimp.Reciever.Machine (wimpMessageBufferBytes)

/--
In all runs of the accept loop with the same names and the same table, the
handshake gets the same decision, whatever the server received before.
-/
def JudgedAlone (pnames : List CString) (ptable : WimpProcessTable)
    (handshake : Handshake) : Prop :=
  ∃ verdict, ∀ server recbuffer arrivals config,
    server.ptable = ptable →
      run (acceptStep pnames) (acceptStart server recbuffer) arrivals =
          some config →
        config.i < pnames.length →
          judge pnames config.server.ptable
              (pSocketReceive config.recbuffer handshake) =
            some verdict

/-- The received bytes settle the decision. -/
def Settled (pnames : List CString) (handshake : Handshake) : Prop :=
  ¬ handshake.val.take 4 <+: handshakeHeader ∨
    4 ≤ handshake.val.length ∧
      (0 ∈ handshake.val.drop sizeofHandshakeHeader ∨
        ∀ pname ∈ pnames,
          ¬ handshake.val.drop sizeofHandshakeHeader <+: pname.val)

instance (pnames : List CString) (handshake : Handshake) :
    Decidable (Settled pnames handshake) :=
  inferInstanceAs (Decidable (_ ∨ _ ∧ (_ ∨ ∀ pname ∈ pnames, _)))

/-! ## The buffer after a connection -/

/-- What the loop reads first is what was received. -/
theorem take_received
    (recbuffer : WimpMsgBuffer) (handshake : Handshake) {count : Nat}
    (inside : count ≤ handshake.val.length) :
    (pSocketReceive recbuffer handshake).val.take count =
      handshake.val.take count :=
  List.take_append_of_le_length inside

theorem drop_received
    (recbuffer : WimpMsgBuffer) (handshake : Handshake) {count : Nat}
    (inside : count ≤ handshake.val.length) :
    (pSocketReceive recbuffer handshake).val.drop count =
      handshake.val.drop count ++
        recbuffer.val.drop handshake.val.length :=
  List.drop_append_of_le_length inside

/-! ## Settled handshakes -/

/-- A wrong byte of the header stays where it is. -/
theorem bad_header_of_differs
    {recbuffer : WimpMsgBuffer} {handshake : Handshake}
    (wrong : ¬ handshake.val.take 4 <+: handshakeHeader) :
    (pSocketReceive recbuffer handshake).val.take 4 ≠
      handshakeHeader := by
  intro header
  apply wrong
  rw [← header]
  show
    handshake.val.take 4 <+:
      (handshake.val ++ recbuffer.val.drop handshake.val.length).take 4
  rw [List.take_append]
  exact ⟨_, rfl⟩

/-- A comparison ends inside a string which does not start the other one. -/
theorem strcmpEq_of_differs
    {name text : Bytes} (nameFree : NulFree name) (rest : Bytes)
    (differs : ¬ name <+: text) :
    strcmpEq (name ++ rest) (terminated text) = some false := by
  induction name generalizing text with
  | nil => exact absurd ⟨text, rfl⟩ differs
  | cons byte name induction =>
      have byteFree := (nulFree_cons_iff byte name).mp nameFree
      rcases text with _ | ⟨char, text⟩
      · simp [terminated, strcmpEq, byteFree.1]
      · rw [terminated, List.cons_append, List.cons_append, strcmpEq]
        split
        · rename_i same
          rw [if_neg byteFree.1]
          apply induction byteFree.2
          intro before
          exact differs (List.cons_prefix_cons.mpr ⟨same, before⟩)
        · rfl

theorem findExpected_of_differs
    {name : Bytes} (nameFree : NulFree name) (rest : Bytes)
    {pnames : List CString}
    (differs : ∀ pname ∈ pnames, ¬ name <+: pname.val) :
    findExpected (name ++ rest) pnames = some none := by
  induction pnames with
  | nil => rfl
  | cons first others induction =>
      have here := differs first (List.mem_cons_self ..)
      rw [findExpected, strcmpEq_of_differs nameFree rest here]
      exact induction fun pname member =>
        differs pname (List.mem_cons_of_mem _ member)

/-- Received bytes with a terminator start with a string. -/
theorem exists_terminated
    {bytes : Bytes} (terminator : 0 ∈ bytes) :
    ∃ (name : CString) (rest : Bytes),
      bytes = terminated name.val ++ rest := by
  induction bytes with
  | nil => cases terminator
  | cons byte bytes induction =>
      by_cases zero : byte = 0
      · exact ⟨⟨[], nulFree_nil⟩, bytes, by rw [zero]; rfl⟩
      · have below : 0 ∈ bytes := by
          rcases List.mem_cons.mp terminator with here | below
          · exact absurd here.symm zero
          · exact below
        rcases induction below with ⟨name, rest, split⟩
        refine
          ⟨⟨byte :: name.val,
              (nulFree_cons_iff byte name.val).mpr
                ⟨zero, name.property⟩⟩, rest, ?_⟩
        rw [split]
        rfl

/-- What a complete header settles about the search. -/
theorem findExpected_of_settled
    {pnames : List CString} {handshake : Handshake}
    (someone : pnames ≠ [])
    (settled :
      0 ∈ handshake.val.drop sizeofHandshakeHeader ∨
        ∀ pname ∈ pnames,
          ¬ handshake.val.drop sizeofHandshakeHeader <+: pname.val) :
    ∃ found, ∀ recbuffer,
      findExpected
          ((pSocketReceive recbuffer handshake).val.drop
            sizeofHandshakeHeader) pnames =
        some found := by
  have long : sizeofHandshakeHeader ≤ handshake.val.length := by
    by_contra short
    have nothing : handshake.val.drop sizeofHandshakeHeader = [] :=
      List.drop_of_length_le (by omega)
    rw [nothing] at settled
    rcases settled with terminator | differs
    · cases terminator
    · rcases List.exists_mem_of_ne_nil pnames someone with
        ⟨pname, expected⟩
      exact differs pname expected List.nil_prefix
  by_cases terminator : 0 ∈ handshake.val.drop sizeofHandshakeHeader
  · rcases exists_terminated terminator with ⟨name, rest, split⟩
    refine ⟨if name ∈ pnames then some name else none, ?_⟩
    intro recbuffer
    rw [drop_received recbuffer handshake long, split, List.append_assoc]
    exact findExpected_terminated pnames name _
  · have differs := settled.resolve_left terminator
    refine ⟨none, ?_⟩
    intro recbuffer
    rw [drop_received recbuffer handshake long]
    exact findExpected_of_differs terminator _ differs

/-- The decision on a settled handshake does not depend on the buffer. -/
theorem judge_of_settled
    {pnames : List CString} {handshake : Handshake}
    (ptable : WimpProcessTable) (someone : pnames ≠ [])
    (settled : Settled pnames handshake) :
    ∃ verdict, ∀ recbuffer,
      judge pnames ptable (pSocketReceive recbuffer handshake) =
        some verdict := by
  rcases settled with wrong | ⟨large, settled⟩
  · exact
      ⟨.badHeader, fun recbuffer =>
        judge_of_bad_header pnames ptable (bad_header_of_differs wrong)⟩
  by_cases header : handshake.val.take 4 = handshakeHeader
  · rcases findExpected_of_settled someone settled with
      ⟨found, searched⟩
    refine ⟨verdictOf ptable found, fun recbuffer => ?_⟩
    rw [judge_of_header pnames ptable
      ((take_received recbuffer handshake large).trans header),
      searched recbuffer]
    rfl
  · refine ⟨.badHeader, fun recbuffer => ?_⟩
    apply judge_of_bad_header
    rw [take_received recbuffer handshake large]
    exact header

/-! ## Runs keep the names of the table -/

/-- Two tables have the same names. -/
def SameNames (first second : WimpProcessTable) : Prop :=
  ∀ name : Bytes,
    (wimpProcessTableGet first (some name)).isSome =
      (wimpProcessTableGet second (some name)).isSome

theorem judge_congr
    {first second : WimpProcessTable} (same : SameNames first second)
    (pnames : List CString) (recbuffer : WimpMsgBuffer) :
    judge pnames first recbuffer = judge pnames second recbuffer := by
  have decided : verdictOf first = verdictOf second := by
    funext found
    cases found with
    | none => rfl
    | some procName =>
        rw [verdictOf, verdictOf, same procName.val]
  rw [judge, judge, decided]

theorem sameNames_of_step
    (pnames : List CString) (ptable : WimpProcessTable)
    (config : AcceptConfig) (incoming : Incoming) (next : AcceptConfig)
    (same : SameNames config.server.ptable ptable)
    (stepped : acceptStep pnames config incoming = some next) :
    SameNames next.server.ptable ptable := by
  unfold acceptStep at stepped
  split at stepped
  case isFalse => cases stepped
  cases incoming with
  | refused =>
      cases stepped
      exact same
  | silent con =>
      simp only at stepped
      split at stepped
      · cases stepped
      · cases stepped
        exact same
  | handshake con handshake =>
      simp only at stepped
      split at stepped
      · cases stepped
      rcases Option.map_eq_some_iff.mp stepped with ⟨verdict, -, rfl⟩
      cases verdict with
      | badHeader => exact same
      | unexpected => exact same
      | missing procName => exact same
      | accepted procName =>
          intro name
          have kept :=
            wimpProcessTableGet_modify config.server.ptable procName.val
              name fun procdat =>
                { procdat with
                  processConnection := con, processActive := true }
          rw [← same name]
          show
            (wimpProcessTableGet
              (activate config.server procName con).ptable
              (some name)).isSome = _
          rw [activate, kept, Option.isSome_map]

/-! ## Handshakes which are not settled -/

/-- A search which ends without a name compared every name to its end. -/
theorem strcmpEq_of_findExpected
    {procName : Bytes} {pnames : List CString}
    (searched : findExpected procName pnames = some none) :
    ∀ pname ∈ pnames,
      strcmpEq procName (terminated pname.val) = some false := by
  induction pnames with
  | nil => nofun
  | cons first rest induction =>
      rcases Option.bind_eq_some_iff.mp searched with
        ⟨equal, compared, searched⟩
      cases equal with
      | true => cases searched
      | false =>
          intro pname member
          rcases List.mem_cons.mp member with rfl | below
          · exact compared
          · exact induction searched pname below

/-- A comparison finds no difference in front of the terminator. -/
theorem strcmpEq_of_prefix
    {object text : Bytes} {count : Nat}
    (before : object <+: text ++ List.replicate count 0) :
    strcmpEq object (terminated text) ≠ some false := by
  induction object generalizing text with
  | nil =>
      cases text with
      | nil => exact (Option.some_ne_none false).symm
      | cons char text => exact (Option.some_ne_none false).symm
  | cons byte object induction =>
      rcases text with _ | ⟨char, text⟩
      · have member := before.subset (List.mem_cons_self ..)
        have zero : byte = 0 := List.eq_of_mem_replicate member
        simp [terminated, strcmpEq, zero]
      · rcases List.cons_prefix_cons.mp before with ⟨same, before⟩
        rw [terminated, List.cons_append, strcmpEq, if_pos same]
        split
        · exact fun equal => Bool.false_ne_true (Option.some.inj equal).symm
        · exact induction before

/-- The decision of a handshake judged alone, in a first round. -/
theorem exists_verdict_of_judgedAlone
    {pnames : List CString} {ptable : WimpProcessTable}
    {handshake : Handshake} (someone : pnames ≠ [])
    (alone : JudgedAlone pnames ptable handshake) :
    ∃ verdict, ∀ recbuffer,
      judge pnames ptable (pSocketReceive recbuffer handshake) =
        some verdict := by
  rcases alone with ⟨verdict, alone⟩
  refine ⟨verdict, fun recbuffer => ?_⟩
  exact alone { processName := ⟨[], nulFree_nil⟩, ptable } recbuffer []
    (acceptStart { processName := ⟨[], nulFree_nil⟩, ptable } recbuffer)
    rfl rfl (List.length_pos_iff.mpr someone)

/-- A buffer with a given front, filled up with one byte. -/
def filledBuffer (front : Bytes) (fill : UInt8) : WimpMsgBuffer :=
  ⟨(front ++ List.replicate wimpMessageBufferBytes fill).take
      wimpMessageBufferBytes, by simp⟩

/-- What a connection leaves of a filled buffer. -/
theorem received_filledBuffer
    (front : Bytes) (fill : UInt8) (handshake : Handshake) :
    (pSocketReceive (filledBuffer front fill) handshake).val =
      handshake.val ++
        ((front ++ List.replicate wimpMessageBufferBytes fill).drop
          handshake.val.length).take
            (wimpMessageBufferBytes - handshake.val.length) := by
  show
    handshake.val ++
        ((front ++ List.replicate wimpMessageBufferBytes fill).take
          wimpMessageBufferBytes).drop handshake.val.length = _
  rw [List.drop_take]

/-- A missing part of the header is read from the buffer. -/
theorem unsettled_header
    {pnames : List CString} {ptable : WimpProcessTable}
    {handshake : Handshake} (short : handshake.val.length < 4)
    (begins : handshake.val.take 4 <+: handshakeHeader) :
    ¬ ∃ verdict, ∀ recbuffer,
        judge pnames ptable (pSocketReceive recbuffer handshake) =
          some verdict := by
  rintro ⟨verdict, judged⟩
  rw [List.take_of_length_le (by omega)] at begins
  rcases begins with ⟨missing, split⟩
  have headerLength : handshakeHeader.length = 4 := rfl
  have missingLength : missing.length = 4 - handshake.val.length := by
    have lengths := congrArg List.length split
    rw [List.length_append] at lengths
    omega
  have capacity : wimpMessageBufferBytes = 512 := rfl
  -- One buffer completes the header.
  have header :
      (pSocketReceive (filledBuffer handshakeHeader 0) handshake).val.take
          4 =
        handshakeHeader := by
    rw [received_filledBuffer]
    nth_rewrite 1 [← split]
    rw [List.append_assoc, List.drop_left, List.take_append,
      List.take_of_length_le (by omega), List.take_take,
      List.take_append_of_le_length (by omega),
      List.take_of_length_le (by omega), split]
  -- Another one ends it with a zero.
  have cleared :
      (pSocketReceive (filledBuffer [] 0) handshake).val.take 4 ≠
        handshakeHeader := by
    intro header
    have last := congrArg (fun bytes => bytes[3]?) header
    rw [received_filledBuffer] at last
    simp only [List.nil_append, List.drop_replicate,
      List.take_replicate] at last
    rw [List.getElem?_take_of_lt (by omega),
      List.getElem?_append_right (by omega),
      List.getElem?_replicate_of_lt (by omega)] at last
    revert last
    decide
  have first := judged (filledBuffer handshakeHeader 0)
  have second := judged (filledBuffer [] 0)
  rw [judge_of_header pnames ptable header,
    Option.map_eq_some_iff] at first
  rw [judge_of_bad_header pnames ptable cleared, Option.some.injEq] at second
  rcases first with ⟨found, -, decided⟩
  rw [← second] at decided
  cases found with
  | none => cases decided
  | some procName =>
      rw [verdictOf] at decided
      split at decided <;> cases decided

/-- A buffer without zeros does not terminate an unterminated name. -/
theorem unterminated_filledBuffer
    {handshake : Handshake}
    (unterminated : 0 ∉ handshake.val.drop sizeofHandshakeHeader) :
    0 ∉ (pSocketReceive (filledBuffer [] 1) handshake).val.drop
      sizeofHandshakeHeader := by
  rw [received_filledBuffer, List.drop_append, List.mem_append, not_or]
  refine ⟨unterminated, ?_⟩
  simp

/-- A buffer can continue a name which the handshake begins. -/
theorem continued_filledBuffer
    {handshake : Handshake} {name : Bytes}
    (begins : handshake.val.drop sizeofHandshakeHeader <+: name) :
    (pSocketReceive
          (filledBuffer (List.replicate sizeofHandshakeHeader 0 ++ name) 0)
          handshake).val.drop sizeofHandshakeHeader <+:
      name ++ List.replicate wimpMessageBufferBytes 0 := by
  rcases begins with ⟨missing, split⟩
  rw [received_filledBuffer, List.drop_append, List.append_assoc]
  by_cases long : sizeofHandshakeHeader ≤ handshake.val.length
  · have beyond :
        (List.replicate sizeofHandshakeHeader (0 : UInt8) ++
              (name ++ List.replicate wimpMessageBufferBytes 0)).drop
            handshake.val.length =
          missing ++ List.replicate wimpMessageBufferBytes 0 := by
      rw [List.drop_append, List.drop_of_length_le
          (by rw [List.length_replicate]; exact long),
        List.nil_append, ← split, List.append_assoc,
        List.length_replicate, ← List.length_drop, List.drop_left]
    rw [beyond, Nat.sub_eq_zero_of_le long, List.drop_zero, ← split,
      List.append_assoc]
    exact (List.prefix_append_right_inj _).mpr (List.take_prefix _ _)
  · have nothing : handshake.val.drop sizeofHandshakeHeader = [] :=
      List.drop_of_length_le (by omega)
    have position :
        handshake.val.length +
            (sizeofHandshakeHeader - handshake.val.length) =
          (List.replicate sizeofHandshakeHeader (0 : UInt8)).length := by
      rw [List.length_replicate]
      omega
    rw [nothing, List.nil_append, List.drop_take, List.drop_drop, position,
      List.drop_left]
    exact List.take_prefix _ _

/-- The rest of an expected name is read from the buffer. -/
theorem unsettled_name
    {pnames : List CString} {ptable : WimpProcessTable}
    {handshake : Handshake} {pname : CString}
    (header : handshake.val.take 4 = handshakeHeader)
    (large : 4 ≤ handshake.val.length)
    (unterminated : 0 ∉ handshake.val.drop sizeofHandshakeHeader)
    (expected : pname ∈ pnames)
    (begins :
      handshake.val.drop sizeofHandshakeHeader <+: pname.val) :
    ¬ ∃ verdict, ∀ recbuffer,
        judge pnames ptable (pSocketReceive recbuffer handshake) =
          some verdict := by
  rintro ⟨verdict, judged⟩
  have searched (recbuffer : WimpMsgBuffer) :
      (findExpected
          ((pSocketReceive recbuffer handshake).val.drop
            sizeofHandshakeHeader) pnames).map (verdictOf ptable) =
        some verdict := by
    rw [← judge_of_header pnames ptable
      ((take_received recbuffer handshake large).trans header)]
    exact judged recbuffer
  -- Without a terminator anywhere no name is found.
  have unexpected : verdict = .unexpected := by
    rcases Option.map_eq_some_iff.mp (searched (filledBuffer [] 1)) with
      ⟨found, search, decided⟩
    cases found with
    | none => exact decided.symm
    | some procName =>
        rcases (findExpected_eq_some search).2 with ⟨rest, reads⟩
        apply absurd _ (unterminated_filledBuffer unterminated)
        rw [← reads, terminated]
        simp
  -- A buffer which continues the name shows no difference from it.
  have continued := continued_filledBuffer begins
  rcases Option.map_eq_some_iff.mp (searched _) with
    ⟨found, search, decided⟩
  cases found with
  | none =>
      exact strcmpEq_of_prefix continued
        (strcmpEq_of_findExpected search pname expected)
  | some procName =>
      rw [unexpected, verdictOf] at decided
      split at decided <;> cases decided

/--
A handshake is judged on its own bytes exactly when these settle the decision.
-/
theorem judgedAlone_iff
    {pnames : List CString} (ptable : WimpProcessTable)
    (handshake : Handshake) (someone : pnames ≠ []) :
    JudgedAlone pnames ptable handshake ↔ Settled pnames handshake := by
  constructor
  · intro alone
    have judged := exists_verdict_of_judgedAlone someone alone
    by_contra unsettled
    rw [Settled, not_or, not_and, not_or] at unsettled
    rcases unsettled with ⟨begins, unsettled⟩
    have begins := Decidable.not_not.mp begins
    by_cases large : 4 ≤ handshake.val.length
    · rcases unsettled large with ⟨unterminated, continued⟩
      push Not at continued
      rcases continued with ⟨pname, expected, continued⟩
      have header : handshake.val.take 4 = handshakeHeader := by
        apply begins.eq_of_length
        rw [List.length_take, Nat.min_eq_left large]
        rfl
      exact
        unsettled_name header large unterminated expected continued judged
    · exact unsettled_header (Nat.lt_of_not_le large) begins judged
  · intro settled
    rcases judge_of_settled ptable someone settled with ⟨verdict, judged⟩
    refine ⟨verdict, ?_⟩
    rintro server recbuffer arrivals config table ran -
    have same : SameNames config.server.ptable ptable :=
      run_induction
        (motive := fun _ config => SameNames config.server.ptable ptable)
        (show SameNames server.ptable ptable by
          rw [table]
          exact fun _ => rfl)
        (fun _ middle label next _ => sameNames_of_step pnames ptable
          middle label next) ran
    rw [judge_congr same]
    exact judged config.recbuffer

/-- A receiver of this library settles the decision on its handshake. -/
theorem settled_wimpCreateHandshake
    (pnames : List CString) {handshake : Handshake}
    {processName : CString}
    (short : processName.val.length + 1 < 2 ^ 31)
    (created : wimpCreateHandshake processName = some handshake.val) :
    Settled pnames handshake := by
  by_cases fits :
      sizeofHandshakeHeader + (processName.val.length + 1) <
        Reciever.Machine.wimpMessageBufferBytes
  · right
    have created :=
      Option.some.inj
        (created.symm.trans (wimpCreateHandshake_of_fits fits))
    have behind :
        handshake.val.drop sizeofHandshakeHeader =
          terminated processName.val := by
      rw [created]
      exact List.drop_left' (by rw [List.length_append, length_toLE]; rfl)
    rw [behind]
    constructor
    · rw [created, List.length_append, List.length_append]
      have headerLength : handshakeHeader.length = 4 := rfl
      omega
    · left
      simp [terminated]
  · left
    have created :=
      Option.some.inj
        (created.symm.trans (wimpCreateHandshake_of_overruns short fits))
    rw [created]
    decide

/-- Two expected names. -/
private def twoNames : List CString := [.ofBytes [97, 98], .ofBytes [99]]

/-- A server which knows two processes. -/
private def serverOfNames : WimpServer :=
  let procdat : WimpProcessData :=
    { processDomain := []
      processPort := 0
      processConnection := 0
      processRelation := .child }
  let ptable :=
    (wimpProcessTableAdd wimpCreateProcessTable [97, 98] procdat true).1
  { processName := .ofBytes [115]
    ptable := (wimpProcessTableAdd ptable [99] procdat true).1 }

/-- A received handshake which is neither empty nor too long. -/
private def received (bytes : Bytes)
    (fits : 0 < bytes.length ∧ bytes.length ≤ wimpMessageBufferBytes) :
    Handshake :=
  ⟨bytes, fits⟩

/-- A complete handshake is judged alone. -/
theorem judgedAlone_complete :
    JudgedAlone twoNames serverOfNames.ptable
      (received (handshakeHeader ++ [3, 0, 0, 0, 97, 98, 0])
        (by decide +kernel)) :=
  (judgedAlone_iff serverOfNames.ptable _ (by decide +kernel)).mpr
    (by decide +kernel)

/--
The handshake of `a` without its terminator is that of `ab` or of nobody,
depending on the last byte of a connection which was rejected before.
-/
theorem not_judgedAlone_leftover :
    ¬ JudgedAlone twoNames serverOfNames.ptable
        (received (handshakeHeader ++ [2, 0, 0, 0, 97])
          (by decide +kernel)) := by
  have accepted :
      ((run (acceptStep twoNames)
            (acceptStart serverOfNames wimpZeroBuffer)
            [.handshake 1
              (received [0, 0, 0, 0, 0, 0, 0, 0, 120, 98, 0]
                (by decide +kernel))]).bind
          fun config =>
            if config.i < twoNames.length then
              judge twoNames config.server.ptable
                (pSocketReceive config.recbuffer
                  (received (handshakeHeader ++ [2, 0, 0, 0, 97])
                    (by decide +kernel)))
            else none) =
        some (.accepted (.ofBytes [97, 98])) := by
    decide +kernel
  have unexpected :
      ((run (acceptStep twoNames)
            (acceptStart serverOfNames wimpZeroBuffer)
            [.handshake 1
              (received [0, 0, 0, 0, 0, 0, 0, 0, 120, 100, 0]
                (by decide +kernel))]).bind
          fun config =>
            if config.i < twoNames.length then
              judge twoNames config.server.ptable
                (pSocketReceive config.recbuffer
                  (received (handshakeHeader ++ [2, 0, 0, 0, 97])
                    (by decide +kernel)))
            else none) =
        some .unexpected := by
    decide +kernel
  rintro ⟨verdict, alone⟩
  rcases Option.bind_eq_some_iff.mp accepted with
    ⟨first, ranFirst, judgedFirst⟩
  rcases Option.bind_eq_some_iff.mp unexpected with
    ⟨second, ranSecond, judgedSecond⟩
  split at judgedFirst
  case isFalse => cases judgedFirst
  case isTrue openFirst =>
    split at judgedSecond
    case isFalse => cases judgedSecond
    case isTrue openSecond =>
      rw [alone _ _ _ _ rfl ranFirst openFirst] at judgedFirst
      rw [alone _ _ _ _ rfl ranSecond openSecond, judgedFirst]
        at judgedSecond
      cases judgedSecond

end Wimp.Server.AcceptAlone
