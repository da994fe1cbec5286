import HtmlWalk.Html.Session
import HtmlWalk.Proofs.Html.Doctypes
import HtmlWalk.Proofs.Html.Mirror.Stage
import HtmlWalk.Proofs.Html.TokenRuns

/-!
# Sessions and runs of characters

A patient session reads the characters of a source one by one (`Session.trickle`): its tokenizer is
exact, it is never told that a piece of the source ends, and each character of a token is dealt with
as a token. Every session makes the document that the patient one makes, however the source is cut
into pieces and the text into runs. Between two characters a session is behind by some characters
(`Session.Shadows`): those of the run under construction.

**Theorem (`Session.Shadows.feed`).** Whatever piece of the source is read, the session still
shadows the patient one. The piece may not start with a byte order mark.

**Theorem (`Session.Shadows.finish`).** In the end both have made the same document.

The stages that a session comes to are fit for the rules, and so no piece of a token is lost:

**Theorem (`Session.settles_piece_document`, `Session.settles_piece_fragment`).** However much of a
source has been read, every piece is dealt with.
-/

namespace HtmlWalk.Html

/-! ## Stages and tokens -/

namespace Stage

variable {s s' : Stage}

/-- Deal with some tokens; tell also what is asked of the tokenizer. -/
def tell (s : Stage) : List Token → Stage × List Signal
  | [] => (s, [])
  | t :: rest =>
    let (s, signal) := s.token 1 t
    let (s, signals) := s.tell rest
    (s, signal.toList ++ signals)

theorem tell_append (s : Stage) (ts us : List Token) : s.tell (ts ++ us) =
    (((s.tell ts).1.tell us).1, (s.tell ts).2 ++ ((s.tell ts).1.tell us).2) := by
  induction ts generalizing s with
  | nil => rfl
  | cons t ts ih => simp only [List.cons_append, tell, ih, List.append_assoc]

theorem tell_chars (s : Stage) (run : List Char) :
    s.tell (run.map fun c => .chars [c]) = (run.foldl say s, []) := by
  induction run generalizing s with
  | nil => rfl
  | cons c run ih =>
    simp only [List.map_cons, tell, ih]
    rfl

/-- Stages that mirror each other are told some tokens. -/
theorem Mirrored.tell (h : s.Mirrored s') (ts : List Token) :
    (s.tell ts).1.Mirrored (s'.tell ts).1 ∧ (s'.tell ts).2 = (s.tell ts).2 := by
  induction ts generalizing s s' with
  | nil => exact ⟨h, rfl⟩
  | cons t ts ih =>
    obtain ⟨htoken, hsignal⟩ := h.token 1 1 t
    obtain ⟨hrest, hsignals⟩ := ih htoken
    exact ⟨hrest, by simp only [Stage.tell, hsignal, hsignals]⟩

/-- **A token is dealt with like its parts.** -/
theorem Mirrored.tell_parts (h : s.Mirrored s) (line : Nat) (t : Token) :
    (s.token line t).1.Mirrored (s.tell t.parts).1 ∧
      (s.tell t.parts).2 = (s.token line t).2.toList := by
  have hwhole : (s.token line t).1.Mirrored (s.tell [t]).1 ∧
      (s.tell [t]).2 = (s.token line t).2.toList := by
    obtain ⟨htoken, hsignal⟩ := h.token line 1 t
    exact ⟨htoken, by simp only [Stage.tell, hsignal, List.append_nil]⟩
  match t with
  | .chars (c :: run) =>
    rw [Token.parts, tell_chars]
    exact ⟨h.chars line (List.cons_ne_nil c run), rfl⟩
  | .chars [] | .declaration _ | .startTag _ | .endTag _ | .comment _ | .null | .flaw | .eof =>
    exact hwhole

/-- Text asks for nothing. -/
theorem snd_tell_of_isSilent (s : Stage) {ts : List Token} (hts : ∀ t ∈ ts, t.isSilent = true) :
    (s.tell ts).2 = [] := by
  induction ts generalizing s with
  | nil => rfl
  | cons t ts ih =>
    obtain ⟨ht, hts⟩ := List.forall_mem_cons.1 hts
    have hsignal : (s.token 1 t).2 = none := by
      cases t with
      | chars run | flaw => rfl
      | _ => cases ht
    simp only [tell, hsignal, ih _ hts, Option.toList_none, List.nil_append]

end Stage

theorem Token.isSilent_of_mem_parts {t t' : Token} (ht : t.isSilent = true) (ht' : t' ∈ t.parts) :
    t'.isSilent = true := by
  match t with
  | .chars (c :: run) =>
    obtain ⟨c, -, rfl⟩ := List.mem_map.1 ht'
    rfl
  | .chars [] | .flaw =>
    rw [List.mem_singleton.1 ht']
    rfl

theorem Tokenizer.isSilent_of_mem_spoken {out : List (Nat × Token)}
    (h : ∀ e ∈ out, e.2.isSilent = true) {t : Token} (ht : t ∈ spoken out) : t.isSilent = true := by
  obtain ⟨e, he, ht⟩ := List.mem_flatMap.1 ht
  exact Token.isSilent_of_mem_parts (h e (List.mem_reverse.1 he)) ht

namespace Session

/-- Do what is asked of the tokenizer. -/
def heedAll (s : Session) (signals : List Signal) : Session :=
  signals.foldl (fun s signal => s.heed (some signal)) s

/-- The patient session reads a character. -/
def trickle (s : Session) (c : Char) : Session :=
  if s.fresh && c == byteOrderMark then { s with fresh := false }
  else
    let t := s.tokenizer.step s.stage.inForeign c
    let (stage, signals) := s.stage.tell (Tokenizer.spoken t.out)
    heedAll { tokenizer := { t with out := [] }, stage, fresh := false } signals

/-! ## Handing over tokens -/

theorem deliver_eq (s : Session) : s.deliver =
    s.tokenizer.out.foldr (fun (line, token) s => s.token line token)
      { s with tokenizer := { s.tokenizer with out := [] } } := by
  unfold deliver
  split
  · next h =>
    rw [h, List.foldr_nil, ← h]
  · rfl

theorem token_eq (s : Session) (line : Nat) (t : Token) : s.token line t =
    heed { s with stage := (s.stage.token line t).1 } (s.stage.token line t).2 := rfl

theorem heedAll_append (s : Session) (signals : List Signal) (signal : Option Signal) :
    s.heedAll (signals ++ signal.toList) = (s.heedAll signals).heed signal := by
  unfold heedAll
  cases signal <;> simp [heed]

/-- What is asked of the tokenizer has nothing to do with the stage. -/
theorem heedAll_stage (s : Session) (signals : List Signal) (stage : Stage) :
    { s.heedAll signals with stage } = heedAll { s with stage } signals := by
  unfold heedAll
  induction signals generalizing s with
  | nil => rfl
  | cons signal signals ih =>
    rw [List.foldl_cons, List.foldl_cons, ih]
    cases signal <;> rfl

theorem stage_heedAll (s : Session) (signals : List Signal) :
    (s.heedAll signals).stage = s.stage := by
  have h := congrArg stage (s.heedAll_stage signals s.stage)
  exact h.symm

/-- Tokens are dealt with like their parts; then the tokenizer does what it is asked for. -/
theorem foldr_token {s : Session} (h : s.stage.Mirrored s.stage) (out : List (Nat × Token)) :
    ∃ stage, out.foldr (fun (line, token) s => s.token line token) s =
        heedAll { s with stage } (s.stage.tell (Tokenizer.spoken out)).2 ∧
      stage.Mirrored (s.stage.tell (Tokenizer.spoken out)).1 := by
  induction out with
  | nil => exact ⟨s.stage, rfl, h⟩
  | cons e out ih =>
    obtain ⟨line, token⟩ := e
    obtain ⟨stage, hout, hstage⟩ := ih
    obtain ⟨hparts, hsignals⟩ := hstage.left.tell_parts line token
    obtain ⟨htell, hsame⟩ := hstage.tell token.parts
    refine ⟨(stage.token line token).1, ?_, ?_⟩
    · rw [List.foldr_cons, hout, Tokenizer.spoken_cons, Stage.tell_append, hsame, hsignals,
        heedAll_append]
      dsimp only
      rw [token_eq, stage_heedAll, heedAll_stage]
    · rw [Tokenizer.spoken_cons, Stage.tell_append]
      exact hparts.trans htell

/-! ## Shadows -/

/-- The session is where the patient one is but for some characters, which its tokenizer has read
and its stage has not been told of. If they are `free`, the two tokenizers need not agree whether
the last character was a carriage return. -/
structure Shadows (free : Prop) (behind : List Char) (s i : Session) : Prop where
  /-- After these characters the stages would mirror each other. -/
  stage : (behind.foldl Stage.say s.stage).Mirrored i.stage
  self : s.stage.Mirrored s.stage
  tokenizer : s.tokenizer.Follows free (behind.map fun c => .chars [c]) i.tokenizer
  /-- The patient session has been told of everything. -/
  out : i.tokenizer.out = []
  /-- What the session has not been told of is text. -/
  silent : ∀ e ∈ s.tokenizer.out, e.2.isSilent = true
  text : behind ≠ [] → s.tokenizer.state.isText = true

namespace Shadows

variable {free : Prop} {behind : List Char} {s i : Session}

theorem mono (h : Shadows free behind s i) {free' : Prop} (hfree : free → free') :
    Shadows free' behind s i :=
  { h with tokenizer := h.tokenizer.mono hfree }

/-- Both do what is asked of the tokenizer. -/
theorem heed (h : Shadows False behind s i) (hfresh : s.fresh = i.fresh) (signal : Signal) :
    Shadows False behind (s.heed (some signal)) (i.heed (some signal)) ∧
      (s.heed (some signal)).fresh = (i.heed (some signal)).fresh := by
  cases signal with
  | raw kind => exact ⟨{ h with tokenizer := h.tokenizer.goto rfl, text := fun _ => rfl }, hfresh⟩
  | plaintext => exact ⟨{ h with tokenizer := h.tokenizer.goto rfl, text := fun _ => rfl }, hfresh⟩
  | scriptEnd =>
    have hflush := h.tokenizer.trails.flushed.flush_right
    refine ⟨{ h with
      tokenizer := h.tokenizer.pause_pause
      out := (congrArg Tokenizer.out hflush).trans h.out
      silent := Tokenizer.isSilent_flush h.silent
      text := fun hne => ?_ }, rfl⟩
    have hstate : s.tokenizer.pause.state = s.tokenizer.state := by
      rw [Tokenizer.pause, Tokenizer.flush_eq]
    exact hstate ▸ h.text hne

theorem heedAll (h : Shadows False behind s i) (hfresh : s.fresh = i.fresh)
    (signals : List Signal) :
    Shadows False behind (s.heedAll signals) (i.heedAll signals) ∧
      (s.heedAll signals).fresh = (i.heedAll signals).fresh := by
  induction signals generalizing s i with
  | nil => exact ⟨h, hfresh⟩
  | cons signal signals ih =>
    obtain ⟨h, hfresh⟩ := h.heed hfresh signal
    exact ih h hfresh

/-- The session is told what its tokenizer has handed over, and so is the patient one. What is left
of it is the run under construction. -/
theorem deliver {stage stage' : Stage} (hstage : (behind.foldl Stage.say stage).Mirrored stage')
    (hself : stage.Mirrored stage) {t u : Tokenizer}
    (h : t.Follows t.Waits (behind.map fun c => .chars [c]) u) (fresh : Bool) :
    let s := Session.deliver ⟨t, stage, fresh⟩
    let i := Session.heedAll ⟨{ u with out := [] }, (stage'.tell (Tokenizer.spoken u.out)).1, fresh⟩
      (stage'.tell (Tokenizer.spoken u.out)).2
    ∃ behind, Shadows s.tokenizer.Waits behind s i ∧ s.fresh = i.fresh := by
  obtain ⟨told, hdeliver, htold⟩ :=
    foldr_token (s := ⟨{ t with out := [] }, stage, fresh⟩) hself t.out
  have hspoken := h.trails.flushed.out
  rw [Tokenizer.spoken_flush] at hspoken
  -- The stages are told the same, the second of them without what the first one was behind.
  have hsame := congrArg stage.tell hspoken
  simp only [Stage.tell_append, Stage.tell_chars, List.append_nil, List.nil_append,
    Prod.mk.injEq] at hsame
  obtain ⟨hpatient, hsignals⟩ := hstage.tell (Tokenizer.spoken u.out)
  have hmirrored : (t.run.reverse.foldl Stage.say told).Mirrored
      (stage'.tell (Tokenizer.spoken u.out)).1 := by
    have hrun := (htold.tell (t.run.reverse.map fun c => .chars [c])).1
    rw [Stage.tell_chars, Stage.tell_chars, hsame.1] at hrun
    exact hrun.trans hpatient
  have htold' : ∀ {free : Prop}, t.Follows free (behind.map fun c => .chars [c]) u →
      Shadows free t.run.reverse ⟨{ t with out := [] }, told, fresh⟩
        ⟨{ u with out := [] }, (stage'.tell (Tokenizer.spoken u.out)).1, fresh⟩ := by
    intro free h
    exact {
      stage := hmirrored
      self := htold.left
      tokenizer := h.taken
      out := rfl
      silent := nofun
      text := fun hne => (h.trails.mayRun (by simpa using hne)).state }
  dsimp only
  rw [deliver_eq, hdeliver, hsignals, ← hsame.2]
  by_cases hwaits : t.Waits
  · rw [Stage.snd_tell_of_isSilent _ fun _ => Tokenizer.isSilent_of_mem_spoken hwaits.2.2]
    exact ⟨_, htold' (h.mono fun hwaits => ⟨hwaits.1, hwaits.2.1, nofun⟩), rfl⟩
  · have hstrict := (htold' (h.mono hwaits)).heedAll rfl
    obtain ⟨hshadows, hfresh⟩ := hstrict (stage.tell (Tokenizer.spoken t.out)).2
    exact ⟨_, hshadows.mono False.elim, hfresh⟩

/-- **A character is read.** -/
theorem read (h : Shadows s.tokenizer.Waits behind s i) {c : Char}
    (hfresh : c = byteOrderMark → s.fresh = i.fresh) :
    ∃ behind', Shadows (s.read c).tokenizer.Waits behind' (s.read c) (i.trickle c) ∧
      (s.read c).fresh = (i.trickle c).fresh := by
  have hmark : (i.fresh && c == byteOrderMark) = (s.fresh && c == byteOrderMark) := by grind
  unfold Session.read trickle
  rw [hmark]
  split
  · exact ⟨behind, { h with }, rfl⟩
  · refine deliver h.stage h.self (h.tokenizer.step (fun hmarkup => ?_) c) false
    -- Where it matters whether the stage is foreign, no characters are missing.
    have hnil : behind = [] := by
      by_contra hne
      have htext := h.text hne
      rw [hmarkup] at htext
      cases htext
    have hstage := h.stage
    rw [hnil] at hstage
    exact hstage.inForeign

theorem foldl_read (h : Shadows s.tokenizer.Waits behind s i) (hfresh : s.fresh = i.fresh)
    (cs : List Char) :
    ∃ behind', Shadows (cs.foldl Session.read s).tokenizer.Waits behind' (cs.foldl Session.read s)
        (cs.foldl trickle i) ∧
      (cs.foldl Session.read s).fresh = (cs.foldl trickle i).fresh := by
  induction cs generalizing s i behind with
  | nil => exact ⟨behind, h, hfresh⟩
  | cons c cs ih =>
    obtain ⟨_, h, hfresh⟩ := h.read fun _ => hfresh
    exact ih h hfresh

/-- **A piece of the source is read.** A byte order mark at its start is dropped by the session, and
so it has to be dropped by the patient one. -/
theorem feed (h : Shadows s.tokenizer.Waits behind s i) {piece : List Char}
    (hpiece : piece.head? = some byteOrderMark → i.fresh = true) :
    ∃ behind', Shadows (s.feed piece).tokenizer.Waits behind' (s.feed piece)
      (piece.foldl trickle i) := by
  cases piece with
  | nil => exact ⟨behind, h⟩
  | cons c cs =>
    have hstart : Shadows s.tokenizer.Waits behind { s with fresh := true } i := { h with }
    have hmark : c = byteOrderMark → true = i.fresh := fun hc => (hpiece (congrArg some hc)).symm
    obtain ⟨_, hfirst, hfresh⟩ := Shadows.read (s := { s with fresh := true }) hstart hmark
    obtain ⟨_, hall, hfresh⟩ := hfirst.foldl_read hfresh cs
    have hfeed : s.feed (c :: cs) =
        let s' := cs.foldl Session.read ({ s with fresh := true }.read c)
        Session.deliver ⟨s'.tokenizer.pause, s'.stage, s'.fresh⟩ := rfl
    rw [hfeed, List.foldl_cons]
    generalize cs.foldl Session.read ({ s with fresh := true }.read c) = s' at hall hfresh
    generalize cs.foldl trickle (i.trickle c) = i' at hall hfresh
    obtain ⟨behind', hend, -⟩ :=
      deliver hall.stage hall.self (hall.tokenizer.pause hall.silent) s'.fresh
    -- The patient session is told of nothing.
    obtain ⟨u, stage', fresh⟩ := i'
    have hout : u.out = [] := hall.out
    have hu : { u with out := [] } = u := by rw [← hout]
    rw [hu, hout] at hend
    dsimp only at hfresh
    subst hfresh
    exact ⟨behind', hend⟩

/-- **The whole source is read.** -/
theorem finish (h : Shadows s.tokenizer.Waits behind s i) : ∃ stage : Stage,
    s.finish = stage.edits.toList ∧
      stage.Mirrored (i.stage.tell (Tokenizer.spoken i.tokenizer.finish.out)).1 := by
  obtain ⟨stage, hout, hstage⟩ := foldr_token
    (s := { s with tokenizer := { s.tokenizer.finish with out := [] } }) h.self
    s.tokenizer.finish.out
  refine ⟨stage, ?_, ?_⟩
  · unfold Session.finish
    rw [deliver_eq, hout, stage_heedAll]
  · rw [h.tokenizer.finish, Stage.tell_append, Stage.tell_chars] at hstage
    exact hstage.trans (h.stage.tell _).1

end Shadows

/-- The patient session that a session shadows. -/
def patient (s : Session) : Session := { s with tokenizer.exact := true, fresh := true }

theorem shadows_patient {s : Session} (hstage : s.stage.Mirrored s.stage)
    (htokenizer : s.tokenizer = { exact := s.tokenizer.exact }) :
    Shadows s.tokenizer.Waits [] s s.patient where
  stage := hstage
  self := hstage
  tokenizer := by
    have hstart : Tokenizer.InStep False s.tokenizer.Waits [] s.tokenizer s.patient.tokenizer := by
      rw [patient, htokenizer]
      exact {
        exact := rfl, state := rfl, afterReturn := .inl rfl, draft := rfl, lastStart := rfl,
        held := rfl, comment := rfl, declaration := rfl, reference := rfl, ahead := rfl, run := rfl,
        run_exact := rfl, out := rfl, quiet := fun _ => rfl, mark := nofun }
    exact hstart.follows
  out := by rw [patient, htokenizer]
  silent := by rw [htokenizer]; nofun
  text := fun hne => absurd rfl hne

theorem mirrored_document (options : ParseOptions) :
    (document options).stage.Mirrored (document options).stage :=
  .opening (.refl fun i e he => by simp at he)

theorem mirrored_fragment (options : ParseOptions) :
    (fragment options).stage.Mirrored (fragment options).stage := by
  refine .building ⟨_, .refl ?_ ?_⟩
  · have hroot : Dom.Fit (#[].push (Edit.element { tag := "html" } [])).toList :=
      Dom.Fit.push (fun i e he => by simp at he) trivial
    exact hroot.push (e := .append .document (.node 0)) ⟨trivial, Nat.one_pos⟩
  · exact {
      root := Nat.two_pos
      root_name := rfl
      stack := nofun
      formatting := nofun
      head := nofun
      form := nofun
      resume := rfl
      templates := by simp [templateModes] }

theorem shadows_document (options : ParseOptions) :
    Shadows (document options).tokenizer.Waits [] (document options) (document options).patient :=
  shadows_patient (mirrored_document options) rfl

theorem shadows_fragment (options : ParseOptions) : Shadows (fragment options).tokenizer.Waits []
    (fragment options) (fragment options).patient :=
  shadows_patient (mirrored_fragment options) rfl

/-! ## Every piece is dealt with -/

/-- The stages that a session comes to mirror themselves. -/
theorem mirrored_foldl_feed {s : Session} (h : s.stage.Mirrored s.stage)
    (pieces : List (List Char)) :
    (pieces.foldl feed s).stage.Mirrored (pieces.foldl feed s).stage := by
  have htoken : ∀ (stage : Stage) line token, stage.Mirrored stage →
      (stage.token line token).1.Mirrored (stage.token line token).1 :=
    fun _ line token h => (h.token line line token).1
  induction pieces generalizing s with
  | nil => exact h
  | cons piece pieces ih => exact ih (keeps_feed htoken h piece)

theorem settles_piece_foldl_feed {s : Session} (h : s.stage.Mirrored s.stage)
    (pieces : List (List Char)) {b : Builder} (hb : (pieces.foldl feed s).stage = .building b)
    (p : Piece) : Builder.Settles p b (b.piece p) := by
  have hstage := mirrored_foldl_feed h pieces
  rw [hb] at hstage
  cases hstage with
  | building h => exact Builder.settles_piece h p

/-- **Every piece is dealt with**, however much of a document has been read, and in whichever pieces
of the source. -/
theorem settles_piece_document (options : ParseOptions) (pieces : List (List Char)) {b : Builder}
    (hb : (pieces.foldl feed (document options)).stage = .building b) (p : Piece) :
    Builder.Settles p b (b.piece p) :=
  settles_piece_foldl_feed (mirrored_document options) pieces hb p

/-- So it is in a fragment. -/
theorem settles_piece_fragment (options : ParseOptions) (pieces : List (List Char)) {b : Builder}
    (hb : (pieces.foldl feed (fragment options)).stage = .building b) (p : Piece) :
    Builder.Settles p b (b.piece p) :=
  settles_piece_foldl_feed (mirrored_fragment options) pieces hb p

end Session

end HtmlWalk.Html
