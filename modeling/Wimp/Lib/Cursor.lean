import Wimp.Lib.ByteRegion

/-!
# Texts laid down behind a cursor

A writer which keeps a cursor into a region lays one text down after the
other.  A text is either copied without its terminator, or printed with its
terminator behind it, and then the cursor moves by a distance which is worked
out apart from the text.  The writer gives up once the cursor reaches a limit.

The module says when such a writer stays inside its region, when a terminator
is left in a region it filled to the end, and when the string it leaves is the
sequence of the texts: exactly when no text follows one which the cursor has
passed by a wrong distance.
-/

namespace Wimp.Lib.Cursor

open Wimp.Lib.ByteRegion

/-- A text on its way into the region, with the way of laying it down. -/
inductive Piece where
  | copied (text : CString)
  | printed (text : CString) (advance : Nat)
      (within : advance ≤ text.val.length + 1)

namespace Piece

/-- The text without a terminator. -/
def text : Piece → Bytes
  | copied text => text.val
  | printed text _ _ => text.val

/-- The bytes put down at the cursor. -/
def written : Piece → Bytes
  | copied text => text.val
  | printed text _ _ => terminated text.val

/-- The distance by which the cursor moves. -/
def advance : Piece → Nat
  | copied text => text.val.length
  | printed _ advance _ => advance

/-- The bytes which the cursor has passed. -/
def kept (piece : Piece) : Bytes :=
  piece.written.take piece.advance

/-- The cursor moves by the length of the text. -/
def Measured (piece : Piece) : Prop :=
  piece.advance = piece.text.length

instance (piece : Piece) : Decidable piece.Measured :=
  inferInstanceAs (Decidable (_ = _))

theorem nulFree_text (piece : Piece) : NulFree piece.text := by
  cases piece with
  | copied text => exact text.property
  | printed text advance within => exact text.property

theorem advance_le_written (piece : Piece) :
    piece.advance ≤ piece.written.length := by
  cases piece with
  | copied text => exact Nat.le_refl _
  | printed text advance within =>
      show advance ≤ (terminated text.val).length
      rw [length_terminated]
      exact within

/-- What is put down is the text, with a terminator or without. -/
theorem written_eq (piece : Piece) :
    piece.written = piece.text ∨ piece.written = terminated piece.text := by
  cases piece with
  | copied text => exact Or.inl rfl
  | printed text advance within => exact Or.inr rfl

theorem written_le (piece : Piece) :
    piece.written.length ≤ piece.text.length + 1 := by
  rcases piece.written_eq with plain | ended
  · rw [plain]
    exact Nat.le_succ _
  · rw [ended, length_terminated]

/-- A cursor which passes more than the text stands behind a terminator. -/
theorem written_of_passed
    {piece : Piece} (passed : piece.text.length < piece.advance) :
    piece.advance = piece.text.length + 1 ∧
      piece.written = terminated piece.text := by
  cases piece with
  | copied text => exact absurd passed (Nat.lt_irrefl _)
  | printed text advance within =>
      exact ⟨Nat.le_antisymm within passed, rfl⟩

end Piece

/-- The texts of the pieces, one after the other. -/
def content (pieces : List Piece) : Bytes :=
  pieces.flatMap Piece.text

/-- The bytes which the cursor has passed behind all the pieces. -/
def passed (pieces : List Piece) : Bytes :=
  pieces.flatMap Piece.kept

/-- The distance which the cursor has moved behind all the pieces. -/
def distance (pieces : List Piece) : Nat :=
  (pieces.map Piece.advance).sum

@[simp]
theorem content_nil : content [] = [] :=
  rfl

@[simp]
theorem content_cons (piece : Piece) (rest : List Piece) :
    content (piece :: rest) = piece.text ++ content rest :=
  rfl

@[simp]
theorem passed_nil : passed [] = [] :=
  rfl

@[simp]
theorem passed_cons (piece : Piece) (rest : List Piece) :
    passed (piece :: rest) = piece.kept ++ passed rest :=
  rfl

@[simp]
theorem distance_nil : distance [] = 0 :=
  rfl

@[simp]
theorem distance_cons (piece : Piece) (rest : List Piece) :
    distance (piece :: rest) = piece.advance + distance rest := by
  simp [distance]

/-- No text is left when the texts together are empty. -/
theorem text_eq_nil_of_content
    {pieces : List Piece} (empty : content pieces = []) :
    ∀ piece ∈ pieces, piece.text = [] :=
  List.flatMap_eq_nil_iff.mp empty

/--
The writer, with the region it leaves; `none` when a piece leaves the region.
-/
def lay (limit : Nat) : Bytes → Nat → List Piece → Option Bytes
  | region, _, [] => some region
  | region, cursor, piece :: rest =>
      if limit ≤ cursor then some region
      else
        (splice region cursor piece.written).bind fun next =>
          lay limit next (cursor + piece.advance) rest

/-- A writer behind its limit leaves the region as it is. -/
theorem lay_of_le
    {limit cursor : Nat} (behind : limit ≤ cursor)
    (region : Bytes) (pieces : List Piece) :
    lay limit region cursor pieces = some region := by
  cases pieces with
  | nil => rfl
  | cons piece rest => rw [lay, if_pos behind]

/-- One step of the writer. -/
theorem lay_cons_of_lt
    {limit cursor : Nat} (before : cursor < limit)
    (region : Bytes) (piece : Piece) (rest : List Piece) :
    lay limit region cursor (piece :: rest) =
      (splice region cursor piece.written).bind fun next =>
        lay limit next (cursor + piece.advance) rest := by
  rw [lay, if_neg (Nat.not_le.mpr before)]

/-- A step which succeeds lays its piece down and goes on. -/
theorem exists_splice_of_lay
    {limit cursor : Nat} {region after : Bytes} {piece : Piece}
    {rest : List Piece} (before : cursor < limit)
    (laid : lay limit region cursor (piece :: rest) = some after) :
    ∃ next, splice region cursor piece.written = some next ∧
      lay limit next (cursor + piece.advance) rest = some after := by
  rw [lay_cons_of_lt before] at laid
  exact Option.bind_eq_some_iff.mp laid

/-- The writer keeps the size of the region. -/
theorem length_of_lay
    {limit cursor : Nat} {region after : Bytes} {pieces : List Piece}
    (laid : lay limit region cursor pieces = some after) :
    after.length = region.length := by
  induction pieces generalizing region cursor with
  | nil =>
      cases laid
      rfl
  | cons piece rest induction =>
      rcases Nat.lt_or_ge cursor limit with before | behind
      · rcases exists_splice_of_lay before laid with ⟨next, copied, later⟩
        rw [induction later, length_of_splice copied]
      · rw [lay_of_le behind] at laid
        cases laid
        rfl

/-- What lies in front of the cursor is never written again. -/
theorem getElem?_of_lay
    {limit cursor : Nat} {region after : Bytes} {pieces : List Piece}
    (laid : lay limit region cursor pieces = some after)
    {i : Nat} (front : i < cursor) :
    after[i]? = region[i]? := by
  induction pieces generalizing region cursor with
  | nil =>
      cases laid
      rfl
  | cons piece rest induction =>
      rcases Nat.lt_or_ge cursor limit with before | behind
      · rcases exists_splice_of_lay before laid with ⟨next, copied, later⟩
        rw [induction later (by omega), getElem?_of_splice copied,
          if_neg (by omega)]
      · rw [lay_of_le behind] at laid
        cases laid
        rfl

/-! ## Staying inside the region -/

/-- The writer comes to a piece behind the others. -/
def Reached (limit cursor : Nat) (before : List Piece) : Prop :=
  cursor + distance before < limit

instance (limit cursor : Nat) (before : List Piece) :
    Decidable (Reached limit cursor before) :=
  inferInstanceAs (Decidable (_ < _))

theorem reached_cons_iff
    (limit cursor : Nat) (piece : Piece) (before : List Piece) :
    Reached limit cursor (piece :: before) ↔
      Reached limit (cursor + piece.advance) before := by
  rw [Reached, Reached, distance_cons, Nat.add_assoc]

theorem not_reached_of_le
    {limit cursor : Nat} (behind : limit ≤ cursor) (before : List Piece) :
    ¬ Reached limit cursor before := by
  unfold Reached
  omega

/--
The writer stays inside its region exactly when every piece it comes to ends
inside the region.
-/
theorem isSome_lay_iff
    (limit : Nat) (region : Bytes) (cursor : Nat) (pieces : List Piece) :
    (lay limit region cursor pieces).isSome ↔
      ∀ before piece after, pieces = before ++ piece :: after →
        Reached limit cursor before →
          cursor + distance before + piece.written.length ≤
            region.length := by
  induction pieces generalizing region cursor with
  | nil => simp [lay]
  | cons piece rest induction =>
      rcases Nat.lt_or_ge cursor limit with front | behind
      · rw [lay_cons_of_lt front]
        constructor
        · intro defined before chosen after split reached
          rcases Option.isSome_iff_exists.mp defined with ⟨last, laid⟩
          rcases Option.bind_eq_some_iff.mp laid with ⟨next, copied, later⟩
          cases before with
          | nil =>
              cases split
              unfold splice at copied
              split_ifs at copied with inside
              simpa using inside
          | cons head tail =>
              rw [List.cons_append, List.cons.injEq] at split
              rcases split with ⟨rfl, split⟩
              rw [reached_cons_iff] at reached
              have fits :=
                (induction next _).mp (Option.isSome_of_eq_some later)
                  tail chosen after split reached
              rw [length_of_splice copied] at fits
              rw [distance_cons]
              omega
        · intro fits
          have inside := fits [] piece rest rfl front
          have copied :
              splice region cursor piece.written =
                some (region.take cursor ++ piece.written ++
                  region.drop (cursor + piece.written.length)) := by
            unfold splice
            exact if_pos inside
          rw [copied, Option.bind_some, induction]
          intro before chosen after split reached
          have later :=
            fits (piece :: before) chosen after (by rw [split]; rfl)
              ((reached_cons_iff ..).mpr reached)
          rw [distance_cons] at later
          rw [length_of_splice copied]
          omega
      · rw [lay_of_le behind]
        refine iff_of_true rfl ?_
        intro before chosen after split reached
        exact absurd reached (not_reached_of_le behind before)

/-! ## The terminator of a region filled to its end -/

/-- The part which the cursor has passed after one step. -/
theorem take_of_splice
    {region next : Bytes} {cursor : Nat} {piece : Piece}
    (copied : splice region cursor piece.written = some next) :
    next.take (cursor + piece.advance) =
      region.take cursor ++ piece.kept := by
  unfold splice at copied
  split_ifs at copied with inside
  rw [Option.some.injEq] at copied
  subst copied
  have within := piece.advance_le_written
  have front : (region.take cursor).length = cursor := by
    rw [List.length_take]
    omega
  have reach : cursor + piece.advance = (region.take cursor).length +
      piece.advance := by
    rw [front]
  rw [List.append_assoc, reach, List.take_length_add_append,
    List.take_append_of_le_length within]
  rfl

/-- A piece in front of the last byte, or one printed, leaves it zero. -/
theorem getElem?_last_of_splice
    {region next : Bytes} {cursor size : Nat} {piece : Piece}
    (sized : region.length = size + 1)
    (last : region[size]? = some 0)
    (copied : splice region cursor piece.written = some next)
    (ended : cursor + piece.written.length = size + 1 →
      piece.written = terminated piece.text) :
    next[size]? = some 0 := by
  have inside : cursor + piece.written.length ≤ size + 1 := by
    unfold splice at copied
    split_ifs at copied with inside
    rwa [sized] at inside
  rw [getElem?_of_splice copied]
  split_ifs with covered
  · have full : cursor + piece.written.length = size + 1 := by omega
    have bytes := ended full
    have place : size - cursor = piece.text.length := by
      rw [bytes, length_terminated] at full
      omega
    rw [place, bytes, terminated]
    simp
  · exact last

/-- A text copied up to the end leaves the terminators in front of it. -/
theorem zero_mem_filled
    {region next : Bytes} {cursor : Nat} {text : CString}
    (full : cursor + text.val.length = region.length)
    (copied : splice region cursor (Piece.copied text).written = some next) :
    0 ∈ next ↔ 0 ∈ region.take cursor := by
  have bytes : next = region.take cursor ++ text.val := by
    have kept : Piece.kept (.copied text) = text.val := List.take_length
    rw [← kept, ← take_of_splice copied]
    apply (List.take_of_length_le _).symm
    rw [length_of_splice copied]
    exact full.ge
  have free : (0 : UInt8) ∉ text.val := text.property
  rw [bytes, List.mem_append, or_iff_left free]

/--
A region whose last byte is zero keeps a terminator exactly when every text
copied up to its very end has a terminator in front of it.
-/
theorem zero_mem_lay_iff
    {size cursor : Nat} {region after : Bytes} {pieces : List Piece}
    (sized : region.length = size + 1)
    (last : region[size]? = some 0)
    (laid : lay size region cursor pieces = some after) :
    0 ∈ after ↔
      ∀ before text rest, pieces = before ++ .copied text :: rest →
        Reached size cursor before →
          cursor + distance before + text.val.length = size + 1 →
            0 ∈ region.take cursor ++ passed before := by
  induction pieces generalizing region cursor with
  | nil =>
      cases laid
      refine iff_of_true (List.mem_of_getElem? last) ?_
      intro before text rest split
      simp at split
  | cons piece pieces induction =>
      rcases Nat.lt_or_ge cursor size with front | behind
      · rcases exists_splice_of_lay front laid with ⟨next, copied, later⟩
        have passedNext := take_of_splice copied
        have nextSized : next.length = size + 1 := by
          rw [length_of_splice copied, sized]
        by_cases full :
          cursor + piece.written.length = size + 1 ∧
            piece.written = piece.text
        · rcases piece with text | ⟨text, advance, within⟩
          · have whole : cursor + text.val.length = size + 1 := full.1
            have stop : size ≤ cursor + Piece.advance (.copied text) := by
              show size ≤ cursor + text.val.length
              omega
            rw [lay_of_le stop, Option.some.injEq] at later
            subst later
            rw [zero_mem_filled (by omega) copied]
            constructor
            · intro zero before chosen rest split reached ending
              exact List.mem_append_left _ zero
            · intro every
              have zero :=
                every [] text pieces rfl front (by simpa using whole)
              simpa using zero
          · have lengths := congrArg List.length full.2
            rw [show Piece.written (.printed text advance within) =
              terminated text.val from rfl, length_terminated] at lengths
            exact absurd lengths (Nat.succ_ne_self _)
        · have lastNext : next[size]? = some 0 := by
            apply getElem?_last_of_splice sized last copied
            intro ending
            exact piece.written_eq.resolve_left fun plain =>
              full ⟨ending, plain⟩
          rw [induction nextSized lastNext later, passedNext]
          constructor
          · intro every before text rest split reached ending
            cases before with
            | nil =>
                cases split
                rw [distance_nil, Nat.add_zero] at ending
                exact absurd ⟨ending, rfl⟩ full
            | cons head tail =>
                rw [List.cons_append, List.cons.injEq] at split
                rcases split with ⟨rfl, split⟩
                rw [reached_cons_iff] at reached
                rw [distance_cons] at ending
                have zero := every tail text rest split reached (by omega)
                rwa [passed_cons, ← List.append_assoc]
          · intro every before text rest split reached ending
            have zero :=
              every (piece :: before) text rest (by rw [split]; rfl)
                ((reached_cons_iff ..).mpr reached)
                (by rw [distance_cons]; omega)
            rwa [passed_cons, ← List.append_assoc] at zero
      · rw [lay_of_le behind] at laid
        cases laid
        refine iff_of_true (List.mem_of_getElem? last) ?_
        intro before text rest split reached
        exact absurd reached (not_reached_of_le behind before)

/-! ## The string which is left -/

/-- No text follows one which the cursor has passed by a wrong distance. -/
def Flush (pieces : List Piece) : Prop :=
  pieces.Pairwise fun piece later => piece.Measured ∨ later.text = []

/-- Where there is no text at all, no text comes late. -/
theorem flush_of_content
    {pieces : List Piece} (empty : content pieces = []) : Flush pieces :=
  List.pairwise_of_forall_mem_list fun _ _ other member =>
    Or.inr (text_eq_nil_of_content empty other member)

/-- Printing nothing at all is left to the copies. -/
def Sounds (pieces : List Piece) : Prop :=
  ∀ piece ∈ pieces, piece.text = [] → piece.written = []

/-- Pieces without a byte to put down change nothing. -/
theorem lay_of_silent
    {limit : Nat} {region : Bytes} (room : limit ≤ region.length)
    {pieces : List Piece} (silent : ∀ piece ∈ pieces, piece.written = [])
    (cursor : Nat) :
    lay limit region cursor pieces = some region := by
  induction pieces generalizing cursor with
  | nil => rfl
  | cons piece rest induction =>
      rcases Nat.lt_or_ge cursor limit with front | behind
      · have empty := silent piece List.mem_cons_self
        have unchanged : splice region cursor piece.written = some region := by
          rw [splice_eq_some_self_iff _ _ (by omega), empty]
          exact List.nil_prefix
        rw [lay_cons_of_lt front, unchanged, Option.bind_some]
        exact induction
          (fun later member => silent later (List.mem_cons_of_mem _ member)) _
      · exact lay_of_le behind region _

/-- On zeroes, a terminator behind the text makes no difference. -/
theorem splice_zeroed
    (front : Bytes) (piece : Piece) {room : Nat}
    (fits : piece.text.length < room) :
    splice (front ++ List.replicate room 0) front.length piece.written =
      some (front ++ piece.text ++
        List.replicate (room - piece.text.length) 0) := by
  have within := piece.written_le
  rw [splice_append _ _ _ (by rw [List.length_replicate]; omega),
    List.drop_replicate]
  rcases piece.written_eq with plain | ended
  · rw [plain]
  · have more :
        room - piece.text.length = room - (piece.text.length + 1) + 1 := by
      omega
    rw [ended, length_terminated, terminated, more, List.replicate_succ]
    simp

/-- On zeroes, a flush sequence of texts is left as it is. -/
theorem lay_of_flush
    {limit room : Nat} {front : Bytes} {pieces : List Piece}
    (flush : Flush pieces) (sounds : Sounds pieces)
    (reach : front.length + (content pieces).length < limit)
    (inside : limit ≤ front.length + room) :
    lay limit (front ++ List.replicate room 0) front.length pieces =
      some (front ++ content pieces ++
        List.replicate (room - (content pieces).length) 0) := by
  induction pieces generalizing front room with
  | nil => simp [lay]
  | cons piece rest induction =>
      rcases List.pairwise_cons.mp flush with ⟨head, tail⟩
      have soundsRest : Sounds rest := fun later member =>
        sounds later (List.mem_cons_of_mem _ member)
      rw [content_cons, List.length_append] at reach
      rw [lay_cons_of_lt (by omega), splice_zeroed front piece (by omega),
        Option.bind_some, content_cons]
      by_cases measured : piece.Measured
      · have cursor :
            front.length + piece.advance =
              (front ++ piece.text).length := by
          rw [List.length_append, measured]
        rw [cursor, induction tail soundsRest]
        · rw [List.length_append, List.append_assoc front, Nat.sub_add_eq]
        · rw [List.length_append]
          omega
        · rw [List.length_append]
          omega
      · have empty : ∀ later ∈ rest, later.text = [] := fun later member =>
          (head later member).resolve_left measured
        have nothing : content rest = [] := List.flatMap_eq_nil_iff.mpr empty
        rw [lay_of_silent, nothing, List.append_nil]
        · rw [List.length_append, List.length_append, List.length_replicate]
          omega
        · intro later member
          exact soundsRest later member (empty later member)

/-- Nothing but zeroes lies behind the bound. -/
def ClearFrom (bound : Nat) (region : Bytes) : Prop :=
  ∀ i byte, bound ≤ i → region[i]? = some byte → byte = 0

/-- A string ends where the zeroes start, at the latest. -/
theorem ClearFrom.length_le
    {bound : Nat} {region text : Bytes} (clear : ClearFrom bound region)
    (readable : cString region = some text) :
    text.length ≤ bound := by
  rcases Nat.lt_or_ge bound region.length with inside | outside
  · have zero : region[bound]? = some 0 := by
      rw [List.getElem?_eq_getElem inside]
      exact congrArg some
        (clear bound _ (Nat.le_refl _) (List.getElem?_eq_getElem inside))
    exact length_le_of_cString readable zero
  · have shorter := length_lt_of_cString readable
    omega

/-- A step leaves zeroes behind the text it puts down. -/
theorem ClearFrom.splice
    {bound cursor larger : Nat} {region next : Bytes} {piece : Piece}
    (clear : ClearFrom bound region)
    (copied : splice region cursor piece.written = some next)
    (le : bound ≤ larger) (behind : cursor + piece.text.length ≤ larger) :
    ClearFrom larger next := by
  intro i byte late at_i
  rw [getElem?_of_splice copied] at at_i
  split_ifs at at_i with covered
  · rcases piece.written_eq with plain | ended
    · rw [plain] at covered
      omega
    · rw [ended, length_terminated] at covered
      have place : i - cursor = piece.text.length := by omega
      rw [ended, place, terminated] at at_i
      simpa using at_i.symm
  · exact clear i byte (by omega) at_i

/-- The terminator which the cursor has passed ends the string. -/
theorem length_le_of_passed
    {limit cursor : Nat} {region next after text : Bytes} {piece : Piece}
    {rest : List Piece} (beyond : piece.text.length < piece.advance)
    (copied : splice region cursor piece.written = some next)
    (later : lay limit next (cursor + piece.advance) rest = some after)
    (readable : cString after = some text) :
    text.length ≤ cursor + piece.text.length := by
  rcases piece.written_of_passed beyond with ⟨advance, ended⟩
  have zero : after[cursor + piece.text.length]? = some 0 := by
    rw [getElem?_of_lay later (by omega), getElem?_of_splice copied, ended,
      if_pos (by rw [length_terminated]; omega), terminated]
    simp
  exact length_le_of_cString readable zero

/-- The string left is never longer than the texts. -/
theorem length_le_of_lay
    {limit cursor bound : Nat} {region after text : Bytes}
    {pieces : List Piece} (clear : ClearFrom bound region)
    (front : cursor ≤ bound)
    (laid : lay limit region cursor pieces = some after)
    (readable : cString after = some text) :
    text.length ≤ bound + (content pieces).length := by
  induction pieces generalizing region cursor bound with
  | nil =>
      cases laid
      exact clear.length_le readable
  | cons piece rest induction =>
      rw [content_cons, List.length_append]
      rcases Nat.lt_or_ge cursor limit with before | behind
      · rcases exists_splice_of_lay before laid with ⟨next, copied, later⟩
        rcases Nat.lt_or_ge piece.text.length piece.advance with beyond | within
        · have ends := length_le_of_passed beyond copied later readable
          omega
        · have zeroes :=
            clear.splice copied (Nat.le_add_right bound piece.text.length)
              (by omega)
          have ends := induction zeroes (by omega) later
          omega
      · rw [lay_of_le behind] at laid
        cases laid
        have ends := clear.length_le readable
        omega

/-- A cursor which lags behind the text costs the next text a byte. -/
theorem length_lt_of_lay
    {limit cursor bound : Nat} {region after text : Bytes}
    {pieces : List Piece} (clear : ClearFrom bound region)
    (front : cursor < bound)
    (laid : lay limit region cursor pieces = some after)
    (readable : cString after = some text)
    (some_text : content pieces ≠ []) :
    text.length < bound + (content pieces).length := by
  induction pieces generalizing region cursor with
  | nil => exact absurd rfl some_text
  | cons piece rest induction =>
      have positive := List.length_pos_iff.mpr some_text
      rw [content_cons, List.length_append] at positive ⊢
      rcases Nat.lt_or_ge cursor limit with before | behind
      · rcases exists_splice_of_lay before laid with ⟨next, copied, later⟩
        rcases Nat.lt_or_ge piece.text.length piece.advance with beyond | within
        · have ends := length_le_of_passed beyond copied later readable
          omega
        · by_cases empty : piece.text = []
          · have none : piece.text.length = 0 := by rw [empty]; rfl
            have zeroes := clear.splice copied (Nat.le_refl _) (by omega)
            rw [content_cons, empty, List.nil_append] at some_text
            have ends := induction zeroes (by omega) later some_text
            omega
          · have more := List.length_pos_iff.mpr empty
            have zeroes :
                ClearFrom (bound + piece.text.length - 1) next :=
              clear.splice copied (by omega) (by omega)
            have ends :=
              length_le_of_lay zeroes (by omega) later readable
            omega
      · rw [lay_of_le behind] at laid
        cases laid
        have ends := clear.length_le readable
        omega

/-- Texts which are all there were put down flush. -/
theorem flush_of_length
    {limit cursor : Nat} {region after text : Bytes}
    {pieces : List Piece} (clear : ClearFrom cursor region)
    (laid : lay limit region cursor pieces = some after)
    (readable : cString after = some text)
    (complete : cursor + (content pieces).length ≤ text.length) :
    Flush pieces := by
  induction pieces generalizing region cursor with
  | nil => exact List.Pairwise.nil
  | cons piece rest induction =>
      rw [content_cons, List.length_append] at complete
      rcases Nat.lt_or_ge cursor limit with before | behind
      · rcases exists_splice_of_lay before laid with ⟨next, copied, later⟩
        have zeroes :=
          clear.splice copied (Nat.le_add_right cursor piece.text.length)
            (Nat.le_refl _)
        by_cases measured : piece.Measured
        · have moved : cursor + piece.advance =
              cursor + piece.text.length := by
            rw [measured]
          rw [moved] at later
          refine List.pairwise_cons.mpr ⟨?_, ?_⟩
          · intro other member
            exact Or.inl measured
          · exact induction zeroes later (by omega)
        · have nothing : content rest = [] := by
            by_contra some_text
            have more := List.length_pos_iff.mpr some_text
            rcases Nat.lt_or_gt_of_ne measured with under | beyond
            · have ends :=
                length_lt_of_lay zeroes (by omega) later readable some_text
              omega
            · have ends := length_le_of_passed beyond copied later readable
              omega
          have empty := text_eq_nil_of_content nothing
          refine List.pairwise_cons.mpr ⟨?_, ?_⟩
          · intro other member
            exact Or.inr (empty other member)
          · exact flush_of_content nothing
      · rw [lay_of_le behind] at laid
        cases laid
        have ends := clear.length_le readable
        apply flush_of_content
        apply List.eq_nil_of_length_eq_zero
        rw [content_cons, List.length_append]
        omega

end Wimp.Lib.Cursor
