import HtmlWalk.Html.Reader
import HtmlWalk.Proofs.Html.ExactErrors
import HtmlWalk.Proofs.Text.Utf8

/-!
# Documents that are read

A document that is read from a source is the document of the text that the bytes are decoded to.
The reads are decoded to pieces of that text, however the bytes arrive, and a session that is fed
with the pieces shadows the same patient session as one that is fed with the whole text.

**Theorem (`parseReader_goesOn`).** A source that goes on and then ends is parsed to that document,
without source lines; one that fails is not parsed at all.

But a session drops a byte order mark at the start of every piece, and so a mark that is part of the
text is lost if a read happens to end before it (`parseReader_mark_lost`). The theorem tells which
text is heard in that case.
-/

namespace HtmlWalk

/-! ## Sources that go on -/

/-- The source has not come to its end: it delivers some bytes, or it was interrupted. -/
def Delivery.GoesOn : Delivery → Prop
  | .bytes delivered => delivered ≠ []
  | .error e => e.failure = .interrupted

instance : DecidablePred Delivery.GoesOn
  | .bytes delivered => inferInstanceAs (Decidable (delivered ≠ []))
  | .error e => inferInstanceAs (Decidable (e.failure = .interrupted))

/-- The bytes that are delivered. -/
def Delivery.received : Delivery → List UInt8
  | .bytes delivered => delivered
  | .error _ => []

/-- The bytes of as many reads as it takes to read them all; no more than so many reads. -/
def cutReads : Nat → List UInt8 → List (List UInt8)
  | _, [] => []
  | 0, _ => []
  | n + 1, bytes => bytes.take readSize :: cutReads n (bytes.drop readSize)

theorem flatten_cutReads {n : Nat} {bytes : List UInt8} (h : bytes.length ≤ n) :
    (cutReads n bytes).flatten = bytes := by
  fun_induction cutReads n bytes with
  | case1 | case2 => simp_all
  | case3 n bytes _ ih =>
    have hdrop : (bytes.drop readSize).length ≤ n := by
      rw [List.length_drop, readSize]
      omega
    rw [List.flatten_cons, ih hdrop, List.take_append_drop]

/-- The reads that it takes to receive what is delivered. -/
def Delivery.reads (d : Delivery) : List (List UInt8) := cutReads d.received.length d.received

/-- The pieces of the text that a source delivers. -/
def sourcePieces (source : List Delivery) : List (List Char) :=
  Text.Utf8.piecesOf none (source.flatMap Delivery.reads)

theorem flatten_sourcePieces (source : List Delivery) : (sourcePieces source).flatten =
    Text.Utf8.shown (Text.Utf8.decode none (source.flatMap Delivery.received)) := by
  have hreads : (source.flatMap Delivery.reads).flatten = source.flatMap Delivery.received := by
    induction source with
    | nil => rfl
    | cons d source ih =>
      rw [List.flatMap_cons, List.flatten_append, ih, List.flatMap_cons, Delivery.reads,
        flatten_cutReads (Nat.le_refl _)]
  rw [sourcePieces, Text.Utf8.flatten_piecesOf, hreads]

namespace Html

/-! ## Bytes and pieces -/

namespace ByteSession

theorem feedReads_eq (s : ByteSession) (n : Nat) (bytes : List UInt8) :
    s.feedReads n bytes = (cutReads n bytes).foldl feed s := by
  induction n generalizing s bytes with
  | zero => cases bytes <;> rfl
  | succ n ih =>
    cases bytes with
    | nil => rfl
    | cons b bytes => exact ih _ _

/-- What is delivered is fed read by read, and then comes what the source delivers next. -/
theorem feedAll_append {source : List Delivery} (h : ∀ d ∈ source, d.GoesOn) (s : ByteSession)
    (rest : List Delivery) : s.feedAll (source ++ rest) =
      ((source.flatMap Delivery.reads).foldl feed s).feedAll rest := by
  induction source generalizing s with
  | nil => rfl
  | cons d source ih =>
    obtain ⟨hd, hsource⟩ := List.forall_mem_cons.1 h
    rw [List.flatMap_cons, List.foldl_append, ← ih hsource, List.cons_append]
    cases d with
    | bytes bytes =>
      cases bytes with
      | nil => exact absurd rfl hd
      | cons b bytes => rw [Delivery.reads, ← feedReads_eq]; rfl
    | error e => exact if_pos hd

/-- The session is fed with the pieces of the text. -/
theorem finish_foldl_feed (s : ByteSession) (reads : List (List UInt8)) :
    (reads.foldl feed s).finish =
      (Text.Utf8.piecesOf s.beginning reads).foldl Session.feed s.session := by
  induction reads generalizing s with
  | nil => rfl
  | cons bytes reads ih => rw [List.foldl_cons, ih, Text.Utf8.piecesOf, List.foldl_append]; rfl

end ByteSession

/-! ## Marks -/

namespace Session

/-- The piece is heard as it is, or without the byte order mark at its start. -/
def Heard (piece heard : List Char) : Prop := heard = piece ∨ byteOrderMark :: heard = piece

theorem Heard.eq {piece heard : List Char} (h : Heard piece heard)
    (hpiece : piece.head? ≠ some byteOrderMark) : heard = piece := by
  rcases h with rfl | rfl
  · rfl
  · exact absurd rfl hpiece

namespace Shadows

variable {behind : List Char} {s i : Session}

/-- **A piece is read**, and the patient session reads what is heard of it. A mark at its start is
not heard, unless the patient session would drop it by itself. -/
theorem feed_heard (h : Shadows s.tokenizer.Waits behind s i) (piece : List Char) :
    ∃ heard, Heard piece heard ∧ (i.fresh = true → heard = piece) ∧
      ∃ behind', Shadows (s.feed piece).tokenizer.Waits behind' (s.feed piece)
        (heard.foldl trickle i) := by
  by_cases hmark : piece.head? = some byteOrderMark → i.fresh = true
  · exact ⟨piece, .inl rfl, fun _ => rfl, h.feed hmark⟩
  · obtain ⟨hhead, hfresh⟩ := Classical.not_imp.1 hmark
    obtain ⟨heard, rfl⟩ := List.head?_eq_some_iff.1 hhead
    refine ⟨heard, .inr rfl, fun hfresh' => absurd hfresh' hfresh, ?_⟩
    -- The patient session drops the mark if it is made to.
    have hi : trickle { i with fresh := true } byteOrderMark = i := by
      obtain ⟨tokenizer, stage, fresh⟩ := i
      cases fresh with
      | false => rfl
      | true => exact absurd rfl hfresh
    have hstart : Shadows s.tokenizer.Waits behind s { i with fresh := true } := { h with }
    have hfeed : ∃ behind', Shadows (s.feed (byteOrderMark :: heard)).tokenizer.Waits behind'
        (s.feed (byteOrderMark :: heard))
        ((byteOrderMark :: heard).foldl trickle { i with fresh := true }) :=
      hstart.feed fun _ => rfl
    rwa [List.foldl_cons, hi] at hfeed

theorem foldl_feed_heard (h : Shadows s.tokenizer.Waits behind s i) (pieces : List (List Char)) :
    ∃ heard, List.Forall₂ Heard pieces heard ∧ (i.fresh = true → heard.head? = pieces.head?) ∧
      ∃ behind', Shadows (pieces.foldl Session.feed s).tokenizer.Waits behind'
        (pieces.foldl Session.feed s) (heard.flatten.foldl trickle i) := by
  induction pieces generalizing s i behind with
  | nil => exact ⟨[], .nil, fun _ => rfl, behind, h⟩
  | cons piece pieces ih =>
    obtain ⟨first, hheard, hfresh, _, hfirst⟩ := h.feed_heard piece
    obtain ⟨rest, hrest, -, behind', hall⟩ := ih hfirst
    refine ⟨first :: rest, .cons hheard hrest, fun hi => congrArg some (hfresh hi), behind', ?_⟩
    rwa [List.flatten_cons, List.foldl_append]

end Shadows

/-- Everything is heard of pieces that do not start with a mark. -/
theorem heard_eq {pieces heard : List (List Char)} (h : List.Forall₂ Heard pieces heard)
    (hfirst : heard.head? = pieces.head?)
    (hmarks : ∀ piece ∈ pieces.tail, piece.head? ≠ some byteOrderMark) : heard = pieces := by
  cases h with
  | nil => rfl
  | @cons piece first pieces heard _ hrest =>
    obtain rfl : first = piece := Option.some.inj hfirst
    congr 1
    rw [List.tail_cons] at hmarks
    clear hfirst
    induction hrest with
    | nil => rfl
    | cons hpiece _ ih =>
      obtain ⟨hmark, hmarks⟩ := List.forall_mem_cons.1 hmarks
      rw [hpiece.eq hmark, ih hmarks]

end Session

end Html

open Html

/-- The parse of a source that goes on and then ends. -/
theorem parseReader_append {source : List Delivery} (h : ∀ d ∈ source, d.GoesOn)
    (options : ParseOptions) (rest : List Delivery) : parseReader (source ++ rest) options =
      (((source.flatMap Delivery.reads).foldl ByteSession.feed
        { session := .document options }).feedAll rest).map fun s =>
          documentOf options s.finish := by
  rw [parseReader, ByteSession.feedAll_append h]

/-- **A source that goes on is read as the text that its bytes are decoded to.** If it ends then, or
delivers nothing, its document is that of what is heard of the text, without source lines: all of it
if no piece but the first one starts with a byte order mark. If it fails, the failure is
reported. -/
theorem parseReader_goesOn (source : List Delivery) (options : ParseOptions)
    (hsource : ∀ d ∈ source, d.GoesOn) :
    (∃ document text,
      parseReader source options = .ok document ∧
      (∀ after, parseReader (source ++ .bytes [] :: after) options = .ok document) ∧
      (∀ text', Text.Utf8.Lossy (source.flatMap Delivery.received) text' ↔ text' = text) ∧
      ((∀ piece ∈ (sourcePieces source).tail, piece.head? ≠ some Session.byteOrderMark) →
        document.eraseLines = (parse (String.ofList text) options).eraseLines) ∧
      (sourcePieces source).flatten = text ∧
      ∃ heard, List.Forall₂ Session.Heard (sourcePieces source) heard ∧
        document.eraseLines = (parse (String.ofList heard.flatten) options).eraseLines) ∧
    ∀ e after, e.failure ≠ .interrupted →
      parseReader (source ++ .error e :: after) options = .error e := by
  have happend := parseReader_append hsource options
  obtain ⟨heard, hheard, hfirst, _, hsession⟩ :=
    (Session.shadows_document options).foldl_feed_heard (sourcePieces source)
  obtain ⟨_, hwhole⟩ := Session.shadows_feed_document options heard.flatten
  have hdocument := eraseLines_documentOf_congr (hsession.documentOf_eq hwhole options)
  have hfinish := ByteSession.finish_foldl_feed { session := .document options }
    (source.flatMap Delivery.reads)
  rw [← sourcePieces] at hfinish
  rw [← hfinish] at hdocument
  have hparse : (parse (String.ofList heard.flatten) options) =
      documentOf options ((Session.document options).feed heard.flatten) := by
    rw [parse, String.toList_ofList]
  rw [← hparse] at hdocument
  refine ⟨⟨_, _, ?_, fun after => happend (.bytes [] :: after), ?_, fun hmarks => ?_,
    flatten_sourcePieces source, heard, hheard, hdocument⟩, fun e after he => ?_⟩
  · rw [← List.append_nil source, happend]
    simp [ByteSession.feedAll, Except.map]
  · exact fun text' => Text.Utf8.lossy_iff
  · rw [← flatten_sourcePieces, ← Session.heard_eq hheard (hfirst rfl) hmarks]
    exact hdocument
  · rw [happend, ByteSession.feedAll, if_neg he]
    rfl

/-- A character that arrives in two parts is read as one. -/
theorem parseReader_goesOn_parts : ∃ document,
    parseReader [.bytes [0x61, 0xe2], .error { failure := .interrupted }, .bytes [0x82, 0xac]] {} =
      .ok document ∧
    document.eraseLines = (parse "a€" {}).eraseLines := by
  have hsource := parseReader_goesOn
    [.bytes [0x61, 0xe2], .error { failure := .interrupted }, .bytes [0x82, 0xac]] {} (by decide)
  have hpieces : sourcePieces
      [.bytes [0x61, 0xe2], .error { failure := .interrupted }, .bytes [0x82, 0xac]] =
        [['a'], ['€']] := by
    decide +kernel
  obtain ⟨⟨document, text, hok, -, -, hparse, htext, -⟩, -⟩ := hsource
  rw [hpieces] at hparse htext
  obtain rfl : ['a', '€'] = text := htext
  exact ⟨document, hok, hparse (by decide)⟩

/-- The mark is part of the text, and yet it is lost, for a read ends before it. -/
theorem parseReader_mark_lost :
    (parseReader [.bytes [0x61], .bytes [0xef, 0xbb, 0xbf, 0x62]] {}).toOption =
      some (parse "ab" {}) ∧
    Text.Utf8.Lossy [0x61, 0xef, 0xbb, 0xbf, 0x62] "a\ufeffb".toList ∧
    (parse "ab" {}).eraseLines ≠ (parse "a\ufeffb" {}).eraseLines := by
  refine ⟨by decide +kernel, ?_, by decide +kernel⟩
  rw [Text.Utf8.lossy_iff]
  decide +kernel

end HtmlWalk
