import Mathlib.Logic.Relation
import TraCR.Lib.Traversal
import TraCR.Nlohmann.Meaning
import TraCR.Nlohmann.Parser
import TraCR.Proofs.Lexer

/-!
# What the parser accepts

The loop of `sax_parse_internal` with its stack against the grammar: it accepts the texts
of the grammar whose strings and integers have a value, and returns that value.
-/

namespace TraCR

open TraCR.Lib TraCR.Lib.JsonText TraCR.Lib.Traversal

/-! ## The loop -/

def ParserState.isDone : ParserState → Bool
  | .done _ => true
  | _ => false

def ParserStep (x y : ParserState × List Char) : Prop :=
  x.1.isDone = false ∧ x.1.feed (scan x.2).1 = .ok y.1 ∧ y.2 = (scan x.2).2

abbrev ParserRun := Relation.ReflTransGen ParserStep

theorem startValue_isRegular {stack : List Frame} {token : Token} {state : ParserState}
    (h : startValue stack token = .ok state) : token.isRegular = true := by
  cases token <;> first | rfl | cases h

theorem feed_isRegular {state state' : ParserState} {token : Token}
    (hdone : state.isDone = false) (h : state.feed token = .ok state') :
    token.isRegular = true := by
  cases state with
  | value stack => exact startValue_isRegular h
  | arrayStart stack =>
      cases token <;> first | rfl | exact @startValue_isRegular (.array [] :: stack) _ _ h
  | done result => cases hdone
  | _ => cases token <;> first | rfl | cases h

theorem Lexeme.ne_nil {text : List Char} {token : Token} (h : Lexeme text token) : text ≠ [] := by
  cases h with
  | integer h =>
      cases h with
      | unsigned hint => cases hint <;> simp
      | integer hint => simp
  | _ => simp [quote]

theorem ParserStep.length_lt {x y : ParserState × List Char} (h : ParserStep x y) :
    y.2.length < x.2.length := by
  obtain ⟨hdone, hfeed, hrest⟩ := h
  obtain ⟨before, text, -, hlexeme, hinput⟩ := scan_sound (feed_isRegular hdone hfeed)
  have hpos := List.length_pos_iff.mpr hlexeme.ne_nil
  have hlength := congrArg List.length hinput
  rw [List.length_append, List.length_append] at hlength
  rw [hrest]
  omega

theorem parseLoop_step {state : ParserState} (hdone : state.isDone = false) (n : Nat)
    (input : List Char) :
    parseLoop (n + 1) state input = (do
      let state ← state.feed (scan input).1
      parseLoop n state (scan input).2) := by
  cases state <;> first | rfl | cases hdone

/-- More rounds than characters are enough. -/
theorem parseLoop_of_run {x : ParserState × List Char} {j : Json} {rest : List Char}
    (h : ParserRun x (.done j, rest)) {n : Nat} (hn : x.2.length < n) :
    parseLoop n x.1 x.2 = .ok (j, rest) := by
  induction h using Relation.ReflTransGen.head_induction_on generalizing n with
  | refl => cases n <;> rfl
  | @head x y hstep _ ih =>
      obtain ⟨n, rfl⟩ := Nat.exists_eq_succ_of_ne_zero (Nat.ne_of_gt (Nat.zero_lt_of_lt hn))
      have hlt := hstep.length_lt
      obtain ⟨hdone, hfeed, hrest⟩ := hstep
      rw [parseLoop_step hdone, hfeed]
      show parseLoop n y.1 (scan x.2).2 = _
      rw [← hrest]
      exact ih (by omega)

theorem parseLoop_ok {n : Nat} {state : ParserState} {input : List Char} {r : Json × List Char}
    (hdone : state.isDone = false) (h : parseLoop n state input = .ok r) :
    ∃ m state', n = m + 1 ∧ state.feed (scan input).1 = .ok state' ∧
      parseLoop m state' (scan input).2 = .ok r := by
  cases n with
  | zero =>
      cases state with
      | done result => cases hdone
      | _ => cases h
  | succ m =>
      rw [parseLoop_step hdone, bind_ok_iff] at h
      obtain ⟨state', hfeed, hrest⟩ := h
      exact ⟨m, state', rfl, hfeed, hrest⟩

/-! ## Texts of the grammar are accepted -/

theorem numberEnds_cons {c : Char} (h : c = ',' ∨ c = ']' ∨ c = '}') (rest : List Char) :
    NumberEnds (c :: rest) := by
  intro d hd
  obtain rfl : c = d := by simpa using hd
  rcases h with rfl | rfl | rfl <;> decide

theorem numberEnds_append {blank rest : List Char} (hblank : IsBlank blank)
    (h : NumberEnds rest) : NumberEnds (blank ++ rest) := by
  cases blank with
  | nil => exact h
  | cons c blank =>
      intro d hd
      obtain rfl : c = d := by simpa using hd
      rcases hblank c List.mem_cons_self with rfl | rfl | rfl | rfl <;> decide

theorem parserStep_of_lexeme {before text rest : List Char} {token : Token}
    {state state' : ParserState} (hbefore : IsBlank before) (hlexeme : Lexeme text token)
    (hends : token.isInteger = true → NumberEnds rest) (hdone : state.isDone = false)
    (hfeed : state.feed token = .ok state') :
    ParserStep (state, before ++ text ++ rest) (state', rest) := by
  have hscan := scan_complete hbefore hlexeme hends
  exact ⟨hdone, by rw [hscan]; exact hfeed, by rw [hscan]⟩

theorem parserStep_of_char {before rest : List Char} {c : Char} {token : Token}
    {state state' : ParserState} (hbefore : IsBlank before) (hchar : token.char? = some c)
    (hdone : state.isDone = false) (hfeed : state.feed token = .ok state') :
    ParserStep (state, before ++ c :: rest) (state', rest) := by
  have hinteger : token.isInteger = false := by
    cases token <;> first | rfl | cases hchar
  have hstep : ParserStep (state, before ++ [c] ++ rest) (state', rest) :=
    parserStep_of_lexeme hbefore ((lexeme_char_iff hchar).mpr rfl)
      (fun h => absurd h (by simp [hinteger])) hdone hfeed
  simpa using hstep

theorem readsInteger_of_writes {text : List Char} {v : Int} (h : Writes text v)
    (hmin : -2 ^ 63 ≤ v) (hmax : v < 2 ^ 64) :
    ∃ token, ReadsInteger text token ∧
      ∀ stack, startValue stack token = .ok (finishValue stack (.number v)) := by
  cases h with
  | natural hint => exact ⟨_, .unsigned hint (by omega), fun _ => rfl⟩
  | negative hint => exact ⟨_, .integer hint hmin, fun _ => rfl⟩

theorem finishValue_ne_value (stack stack' : List Frame) (v : Json) :
    finishValue stack v ≠ .value stack' := by
  cases stack with
  | nil => nofun
  | cons frame stack => cases frame <;> nofun

theorem finishValue_ne_objectKey (stack stack' : List Frame) (v : Json)
    (fields : List (String × Json)) : finishValue stack v ≠ .objectKey fields stack' := by
  cases stack with
  | nil => nofun
  | cons frame stack => cases frame <;> nofun

theorem parserRun_arrayStart {stack : List Frame} {input : List Char}
    {y : ParserState × List Char} (hy : y.1 ≠ .value (.array [] :: stack))
    (h : ParserRun (.value (.array [] :: stack), input) y) :
    ParserRun (.arrayStart stack, input) y := by
  rcases h.cases_head with rfl | ⟨z, ⟨-, hfeed, hrest⟩, hrun⟩
  · exact absurd rfl hy
  · refine .head ⟨rfl, ?_, hrest⟩ hrun
    have hvalue : startValue (.array [] :: stack) (scan input).1 = .ok z.1 := hfeed
    show ParserState.feed (.arrayStart stack) (scan input).1 = .ok z.1
    generalize (scan input).1 = token at hvalue ⊢
    cases token <;> first | exact hvalue | cases hvalue

theorem parserRun_objectStart {stack : List Frame} {input : List Char}
    {y : ParserState × List Char} (hy : y.1 ≠ .objectKey [] stack)
    (h : ParserRun (.objectKey [] stack, input) y) : ParserRun (.objectStart stack, input) y := by
  rcases h.cases_head with rfl | ⟨z, ⟨-, hfeed, hrest⟩, hrun⟩
  · exact absurd rfl hy
  · refine .head ⟨rfl, ?_, hrest⟩ hrun
    have hkey : ParserState.feed (.objectKey [] stack) (scan input).1 = .ok z.1 := hfeed
    show ParserState.feed (.objectStart stack) (scan input).1 = .ok z.1
    generalize (scan input).1 = token at hkey ⊢
    cases token <;> first | exact hkey | cases hkey

mutual

/-- A value is read and put into the container on top of the stack. -/
theorem parserRun_value (t : Tree) {text : List Char} {v : Json} (h : Value text t)
    (hv : Denotes t v) (stack : List Frame) {before : List Char} (hbefore : IsBlank before)
    {rest : List Char} (hends : ∀ n, t = .number n → NumberEnds rest) :
    ParserRun (.value stack, before ++ text ++ rest) (finishValue stack v, rest) := by
  have hsingle : ∀ {token}, Lexeme text token → (token.isInteger = true → NumberEnds rest) →
      startValue stack token = .ok (finishValue stack v) →
        ParserRun (.value stack, before ++ text ++ rest) (finishValue stack v, rest) :=
    fun hlexeme hnumber hfeed => .single (parserStep_of_lexeme hbefore hlexeme hnumber rfl hfeed)
  match t with
  | .null =>
      cases h
      cases hv
      exact hsingle .literalNull (fun h => nomatch h) rfl
  | .boolean b =>
      cases hv
      cases h with
      | true => exact hsingle .literalTrue (fun h => nomatch h) rfl
      | false => exact hsingle .literalFalse (fun h => nomatch h) rfl
  | .number n =>
      cases h
      cases hv with
      | number hwrites hmin hmax =>
          obtain ⟨token, hreads, hfeed⟩ := readsInteger_of_writes hwrites hmin hmax
          exact hsingle (.integer hreads) (fun _ => hends n rfl) (hfeed stack)
  | .string s =>
      cases h
      cases hv with
      | string hnames =>
          cases hnames with
          | spelled _ hspells => exact hsingle (.valueString hspells) (fun h => nomatch h) rfl
  | .array elements =>
      cases hv with
      | @array _ values hvalues =>
          have hopen : ∀ tail, ParserStep (.value stack, before ++ '[' :: tail)
              (.arrayStart stack, tail) :=
            fun tail => @parserStep_of_char _ _ _ .beginArray _ _ hbefore rfl rfl rfl
          cases h with
          | @emptyArray blank hblank =>
              cases hvalues
              have hclose : ParserStep (.arrayStart stack, blank ++ ']' :: rest)
                  (finishValue stack (.array []), rest) :=
                @parserStep_of_char _ _ _ .endArray _ _ hblank rfl rfl rfl
              simpa using (Relation.ReflTransGen.single hclose).head (hopen _)
          | @array inner _ helements =>
              have hrun := parserRun_elements elements helements hvalues stack [] rest
              simpa using Relation.ReflTransGen.head (hopen _)
                (parserRun_arrayStart (finishValue_ne_value _ _ _) hrun)
  | .object members =>
      cases hv with
      | @object _ fields hfields =>
          have hopen : ∀ tail, ParserStep (.value stack, before ++ '{' :: tail)
              (.objectStart stack, tail) :=
            fun tail => @parserStep_of_char _ _ _ .beginObject _ _ hbefore rfl rfl rfl
          cases h with
          | @emptyObject blank hblank =>
              cases hfields
              have hclose : ParserStep (.objectStart stack, blank ++ '}' :: rest)
                  (finishValue stack (.object []), rest) :=
                @parserStep_of_char _ _ _ .endObject _ _ hblank rfl rfl rfl
              simpa using (Relation.ReflTransGen.single hclose).head (hopen _)
          | @object inner _ hmembers =>
              have hrun := parserRun_members members hmembers hfields stack [] rest
              simpa using Relation.ReflTransGen.head (hopen _)
                (parserRun_objectStart (finishValue_ne_objectKey _ _ _ _) hrun)

theorem parserRun_elements (elements : List Tree) {text : List Char} {values : List Json}
    (h : Elements text elements) (hvalues : DenoteElements elements values)
    (stack : List Frame) (read : List Json) (rest : List Char) :
    ParserRun (.value (.array read :: stack), text ++ ']' :: rest)
      (finishValue stack (.array (read ++ values)), rest) := by
  match elements with
  | [] => cases h
  | t :: elements =>
      cases hvalues with
      | @cons _ v _ values hv hvs =>
          cases h with
          | @last before inner after _ hbefore hvalue hafter =>
              cases hvs
              have hends : NumberEnds (after ++ ']' :: rest) :=
                numberEnds_append hafter (numberEnds_cons (by simp) rest)
              have hrun := parserRun_value t hvalue hv (.array read :: stack) hbefore
                fun _ _ => hends
              have hclose : ParserStep (.arrayNext (read ++ [v]) stack, after ++ ']' :: rest)
                  (finishValue stack (.array (read ++ [v])), rest) :=
                @parserStep_of_char _ _ _ .endArray _ _ hafter rfl rfl rfl
              simpa using hrun.tail hclose
          | @more before inner after more _ _ hbefore hvalue hafter hmore =>
              have hends : NumberEnds (after ++ ',' :: (more ++ ']' :: rest)) :=
                numberEnds_append hafter (numberEnds_cons (by simp) _)
              have hrun := parserRun_value t hvalue hv (.array read :: stack) hbefore
                fun _ _ => hends
              have hcomma : ParserStep
                  (.arrayNext (read ++ [v]) stack, after ++ ',' :: (more ++ ']' :: rest))
                  (.value (.array (read ++ [v]) :: stack), more ++ ']' :: rest) :=
                @parserStep_of_char _ _ _ .valueSeparator _ _ hafter rfl rfl rfl
              have htail := parserRun_elements elements hmore hvs stack (read ++ [v]) rest
              simpa using (hrun.tail hcomma).trans htail

theorem parserRun_members (members : List (Literal × Tree)) {text : List Char}
    {fields : List (String × Json)} (h : Members text members)
    (hfields : DenoteMembers members fields) (stack : List Frame)
    (into : List (String × Json)) (rest : List Char) :
    ParserRun (.objectKey into stack, text ++ '}' :: rest)
      (finishValue stack (.object (insertAll fields into)), rest) := by
  match members with
  | [] => cases h
  | m :: members =>
      cases hfields with
      | @cons literal t key v _ fields hkey hv hvs =>
          cases h with
          | last hmember =>
              cases hvs
              obtain ⟨after, hafter, hrun⟩ := parserRun_member (literal, t) hmember hkey hv
                stack into (numberEnds_cons (.inr (.inr rfl)) rest)
              have hclose : ParserStep
                  (.objectNext (insertField key v into) stack, after ++ '}' :: rest)
                  (finishValue stack (.object (insertField key v into)), rest) :=
                @parserStep_of_char _ _ _ .endObject _ _ hafter rfl rfl rfl
              simpa using hrun.tail hclose
          | @more _ more _ _ hmember hmore =>
              obtain ⟨after, hafter, hrun⟩ := parserRun_member (literal, t) hmember hkey hv
                stack into (numberEnds_cons (.inl rfl) (more ++ '}' :: rest))
              have hcomma : ParserStep
                  (.objectNext (insertField key v into) stack,
                    after ++ ',' :: (more ++ '}' :: rest))
                  (.objectKey (insertField key v into) stack, more ++ '}' :: rest) :=
                @parserStep_of_char _ _ _ .valueSeparator _ _ hafter rfl rfl rfl
              have htail := parserRun_members members hmore hvs stack (insertField key v into) rest
              simpa using (hrun.tail hcomma).trans htail

theorem parserRun_member (m : Literal × Tree) {text : List Char} {key : String} {v : Json}
    (h : Member text m) (hkey : Names m.1 key) (hv : Denotes m.2 v) (stack : List Frame)
    (into : List (String × Json)) {rest : List Char}
    (hends : NumberEnds rest) :
    ∃ after, IsBlank after ∧ ParserRun (.objectKey into stack, text ++ rest)
      (.objectNext (insertField key v into) stack, after ++ rest) := by
  match m with
  | (literal, t) =>
      cases h with
      | @pair before blank blank' inner after _ _ hbefore hblank hblank' hvalue hafter =>
          refine ⟨after, hafter, ?_⟩
          cases hkey with
          | @spelled body chars _ hspells =>
              have hname : ParserStep
                  (.objectKey into stack, before ++ quote body ++
                    (blank ++ ':' :: (blank' ++ inner ++ (after ++ rest))))
                  (.separator into (String.ofList chars) stack,
                    blank ++ ':' :: (blank' ++ inner ++ (after ++ rest))) :=
                parserStep_of_lexeme hbefore (.valueString hspells) (fun h => nomatch h) rfl rfl
              have hcolon : ParserStep
                  (.separator into (String.ofList chars) stack,
                    blank ++ ':' :: (blank' ++ inner ++ (after ++ rest)))
                  (.value (.object into (String.ofList chars) :: stack),
                    blank' ++ inner ++ (after ++ rest)) :=
                @parserStep_of_char _ _ _ .nameSeparator _ _ hblank rfl rfl rfl
              have hrun : ParserRun _ (.objectNext (insertField (String.ofList chars) v into) stack,
                  after ++ rest) :=
                parserRun_value t hvalue hv (.object into (String.ofList chars) :: stack) hblank'
                  fun _ _ => numberEnds_append hafter hends
              simpa using (hrun.head hcolon).head hname

end

/-! ## What is accepted is in the grammar -/

theorem exists_of_scan {input : List Char} {token : Token} (h : (scan input).1 = token)
    (hregular : token.isRegular = true) :
    ∃ before text, IsBlank before ∧ Lexeme text token ∧
      input = before ++ text ++ (scan input).2 := by
  subst h
  exact scan_sound hregular

theorem exists_of_scan_char {input : List Char} {token : Token} {c : Char}
    (h : (scan input).1 = token) (hchar : token.char? = some c) :
    ∃ before, IsBlank before ∧ input = before ++ c :: (scan input).2 := by
  have hregular : token.isRegular = true := by
    cases token <;> first | rfl | cases hchar
  obtain ⟨before, text, hbefore, hlexeme, hinput⟩ := exists_of_scan h hregular
  obtain rfl := (lexeme_char_iff hchar).mp hlexeme
  exact ⟨before, hbefore, by simpa using hinput⟩

theorem writes_of_readsInteger {text : List Char} {token : Token} (h : ReadsInteger text token) :
    ∃ v, Writes text v ∧ -2 ^ 63 ≤ v ∧ v < 2 ^ 64 ∧
      ∀ stack, startValue stack token = .ok (finishValue stack (.number v)) := by
  cases h with
  | unsigned hint hlt => exact ⟨_, .natural hint, by omega, by omega, fun _ => rfl⟩
  | integer hint hle => exact ⟨_, .negative hint, hle, by omega, fun _ => rfl⟩

/-- What is read from a state in which a value is due: the value, and the rest of the loop
after it. -/
def SoundValue (n : Nat) : Prop :=
  ∀ stack input r, parseLoop n (.value stack) input = .ok r →
    ∃ m before text t v input', m < n ∧ IsBlank before ∧ Value text t ∧ Denotes t v ∧
      input = before ++ text ++ input' ∧ parseLoop m (finishValue stack v) input' = .ok r

def SoundElements (n : Nat) : Prop :=
  ∀ read stack input r, parseLoop n (.arrayNext read stack) input = .ok r →
    ∃ m body elements values input', m < n ∧
      (∀ before text t, IsBlank before → Value text t →
        Elements (before ++ text ++ body) (t :: elements)) ∧
      DenoteElements elements values ∧ input = body ++ ']' :: input' ∧
        parseLoop m (finishValue stack (.array (read ++ values))) input' = .ok r

def IsField (text : List Char) (literal : Literal) (t : Tree) : Prop :=
  ∀ after, IsBlank after → Member (text ++ after) (literal, t)

def SoundMembers (n : Nat) : Prop :=
  ∀ into stack input r, parseLoop n (.objectNext into stack) input = .ok r →
    ∃ m body members fields input', m < n ∧
      (∀ text literal t, IsField text literal t →
        Members (text ++ body) ((literal, t) :: members)) ∧
      DenoteMembers members fields ∧ input = body ++ '}' :: input' ∧
        parseLoop m (finishValue stack (.object (insertAll fields into))) input' = .ok r

theorem sound_separator {n : Nat} (ih : ∀ m < n, SoundValue m) {into : List (String × Json)}
    {key : String} {stack : List Frame} {input : List Char} {r : Json × List Char}
    (h : parseLoop n (.separator into key stack) input = .ok r) :
    ∃ m blank blank' text t v input', m < n ∧ IsBlank blank ∧ IsBlank blank' ∧ Value text t ∧
      Denotes t v ∧ input = blank ++ ':' :: (blank' ++ text ++ input') ∧
        parseLoop m (.objectNext (insertField key v into) stack) input' = .ok r := by
  obtain ⟨m, state', rfl, hfeed, hrest⟩ := parseLoop_ok rfl h
  cases htoken : (scan input).1 with
  | nameSeparator =>
      rw [htoken] at hfeed
      obtain rfl := Except.ok.inj hfeed
      obtain ⟨blank, hblank, hinput⟩ := exists_of_scan_char htoken rfl
      obtain ⟨k, blank', text, t, v, input', hk, hblank', hvalue, hv, htext, hloop⟩ :=
        ih m (by omega) _ _ _ hrest
      refine ⟨k, blank, blank', text, t, v, input', by omega, hblank, hblank', hvalue, hv, ?_,
        hloop⟩
      rw [hinput, htext]
  | _ =>
      rw [htoken] at hfeed
      cases hfeed

theorem sound_key {n : Nat} (ih : ∀ m < n, SoundValue m) {into : List (String × Json)}
    {key : String} {stack : List Frame} {input : List Char} {r : Json × List Char}
    (htoken : (scan input).1 = .valueString key)
    (h : parseLoop n (.separator into key stack) (scan input).2 = .ok r) :
    ∃ m text literal t v input', m < n ∧ IsField text literal t ∧ Names literal key ∧
      Denotes t v ∧ input = text ++ input' ∧
        parseLoop m (.objectNext (insertField key v into) stack) input' = .ok r := by
  obtain ⟨before, name, hbefore, hlexeme, hinput⟩ := exists_of_scan htoken rfl
  obtain ⟨m, blank, blank', text, t, v, input', hm, hblank, hblank', hvalue, hv, htext, hloop⟩ :=
    sound_separator ih h
  cases hlexeme with
  | integer h => cases h
  | @valueString body chars hspells =>
      have hstring : IsString (quote body) := .quoted hspells.isChars
      refine ⟨m, before ++ quote body ++ blank ++ ':' :: (blank' ++ text),
        ⟨quote body, hstring⟩, t, v, input', hm, ?_, .spelled hstring hspells, hv, ?_, hloop⟩
      · intro after hafter
        have hpair := @Member.pair _ _ _ _ _ ⟨quote body, hstring⟩ _ hbefore hblank hblank'
          hvalue hafter
        simpa using hpair
      · rw [hinput, htext]
        simp

theorem soundMembers {n : Nat} (ihValue : ∀ m < n, SoundValue m)
    (ihMembers : ∀ m < n, SoundMembers m) : SoundMembers n := by
  intro into stack input r h
  obtain ⟨m, state', rfl, hfeed, hrest⟩ := parseLoop_ok rfl h
  cases htoken : (scan input).1 with
  | endObject =>
      rw [htoken] at hfeed
      obtain rfl := Except.ok.inj hfeed
      obtain ⟨after, hafter, hinput⟩ := exists_of_scan_char htoken rfl
      exact ⟨m, after, [], [], _, by omega,
        fun text literal t hfield => .last (hfield after hafter), .nil, hinput, hrest⟩
  | valueSeparator =>
      rw [htoken] at hfeed
      obtain rfl := Except.ok.inj hfeed
      obtain ⟨after, hafter, hinput⟩ := exists_of_scan_char htoken rfl
      obtain ⟨k, state'', rfl, hfeed', hrest'⟩ := parseLoop_ok rfl hrest
      cases hkey : (scan (scan input).2).1 with
      | valueString key =>
          rw [hkey] at hfeed'
          obtain rfl := Except.ok.inj hfeed'
          obtain ⟨l, text, literal, t, v, input', hl, hfield, hname, hv, htext, hloop⟩ :=
            sound_key (fun m hm => ihValue m (by omega)) hkey hrest'
          obtain ⟨l', body, members, fields, input'', hl', hmembers, hfields, hbody, hloop'⟩ :=
            ihMembers l (by omega) _ _ _ _ hloop
          refine ⟨l', after ++ ',' :: (text ++ body), (literal, t) :: members, (key, v) :: fields,
            input'', by omega, ?_, .cons hname hv hfields, ?_, hloop'⟩
          · intro text' literal' t' hfield'
            simpa using Members.more (hfield' after hafter) (hmembers text literal t hfield)
          · rw [hinput, htext, hbody]
            simp
      | _ =>
          rw [hkey] at hfeed'
          cases hfeed'
  | _ =>
      rw [htoken] at hfeed
      cases hfeed

theorem soundElements {n : Nat} (ihValue : ∀ m < n, SoundValue m)
    (ihElements : ∀ m < n, SoundElements m) : SoundElements n := by
  intro read stack input r h
  obtain ⟨m, state', rfl, hfeed, hrest⟩ := parseLoop_ok rfl h
  cases htoken : (scan input).1 with
  | endArray =>
      rw [htoken] at hfeed
      obtain rfl := Except.ok.inj hfeed
      obtain ⟨after, hafter, hinput⟩ := exists_of_scan_char htoken rfl
      refine ⟨m, after, [], [], _, by omega, ?_, .nil, hinput, by simpa using hrest⟩
      exact fun before text t hbefore hvalue => .last hbefore hvalue hafter
  | valueSeparator =>
      rw [htoken] at hfeed
      obtain rfl := Except.ok.inj hfeed
      obtain ⟨after, hafter, hinput⟩ := exists_of_scan_char htoken rfl
      obtain ⟨k, before, text, t, v, input', hk, hbefore, hvalue, hv, htext, hloop⟩ :=
        ihValue m (by omega) _ _ _ hrest
      obtain ⟨l, body, elements, values, input'', hl, helements, hvalues, hbody, hloop'⟩ :=
        ihElements k (by omega) _ _ _ _ hloop
      refine ⟨l, after ++ ',' :: (before ++ text ++ body), t :: elements, v :: values, input'',
        by omega, ?_, .cons hv hvalues, ?_, by simpa using hloop'⟩
      · intro before' text' t' hbefore' hvalue'
        simpa using Elements.more hbefore' hvalue' hafter (helements before text t hbefore hvalue)
      · rw [hinput, htext, hbody]
        simp
  | _ =>
      rw [htoken] at hfeed
      cases hfeed

theorem sound_arrayStart {n : Nat} (ihValue : ∀ m ≤ n, SoundValue m)
    (ihElements : ∀ m ≤ n, SoundElements m) {stack : List Frame} {input : List Char}
    {r : Json × List Char} (h : parseLoop n (.arrayStart stack) input = .ok r) :
    ∃ m text t v input', m < n ∧ Value ('[' :: text) t ∧ Denotes t v ∧ input = text ++ input' ∧
      parseLoop m (finishValue stack v) input' = .ok r := by
  by_cases hclose : (scan input).1 = .endArray
  · obtain ⟨m, state', rfl, hfeed, hrest⟩ := parseLoop_ok rfl h
    rw [hclose] at hfeed
    obtain rfl := Except.ok.inj hfeed
    obtain ⟨blank, hblank, hinput⟩ := exists_of_scan_char hclose rfl
    exact ⟨m, blank ++ [']'], _, _, _, by omega, .emptyArray hblank, .array .nil,
      by simpa using hinput, hrest⟩
  · have hvalue : parseLoop n (.value (.array [] :: stack)) input = .ok r := by
      obtain ⟨m, state', rfl, hfeed, hrest⟩ := parseLoop_ok rfl h
      have hstart : startValue (.array [] :: stack) (scan input).1 = .ok state' := by
        generalize (scan input).1 = token at hfeed hclose
        cases token <;> first | exact hfeed | exact absurd rfl hclose
      rw [parseLoop_step rfl]
      exact bind_ok_iff.mpr ⟨state', hstart, hrest⟩
    obtain ⟨k, before, text, t, v, input', hk, hbefore, hvalue, hv, htext, hloop⟩ :=
      ihValue n le_rfl _ _ _ hvalue
    obtain ⟨l, body, elements, values, input'', hl, helements, hvalues, hbody, hloop'⟩ :=
      ihElements k (by omega) _ _ _ _ hloop
    refine ⟨l, before ++ text ++ body ++ [']'], _, _, input'', by omega,
      .array (helements before text t hbefore hvalue), .array (.cons hv hvalues), ?_, hloop'⟩
    rw [htext, hbody]
    simp

theorem sound_objectStart {n : Nat} (ihValue : ∀ m ≤ n, SoundValue m)
    (ihMembers : ∀ m ≤ n, SoundMembers m) {stack : List Frame} {input : List Char}
    {r : Json × List Char} (h : parseLoop n (.objectStart stack) input = .ok r) :
    ∃ m text t v input', m < n ∧ Value ('{' :: text) t ∧ Denotes t v ∧ input = text ++ input' ∧
      parseLoop m (finishValue stack v) input' = .ok r := by
  obtain ⟨m, state', rfl, hfeed, hrest⟩ := parseLoop_ok rfl h
  cases htoken : (scan input).1 with
  | endObject =>
      rw [htoken] at hfeed
      obtain rfl := Except.ok.inj hfeed
      obtain ⟨blank, hblank, hinput⟩ := exists_of_scan_char htoken rfl
      exact ⟨m, blank ++ ['}'], _, _, _, by omega, .emptyObject hblank, .object .nil,
        by simpa using hinput, hrest⟩
  | valueString key =>
      rw [htoken] at hfeed
      obtain rfl := Except.ok.inj hfeed
      obtain ⟨k, text, literal, t, v, input', hk, hfield, hname, hv, htext, hloop⟩ :=
        sound_key (fun m hm => ihValue m (by omega)) htoken hrest
      obtain ⟨l, body, members, fields, input'', hl, hmembers, hfields, hbody, hloop'⟩ :=
        ihMembers k (by omega) _ _ _ _ hloop
      refine ⟨l, text ++ body ++ ['}'], _, _, input'', by omega,
        .object (hmembers text literal t hfield), .object (.cons hname hv hfields), ?_, hloop'⟩
      rw [htext, hbody]
      simp
  | _ =>
      rw [htoken] at hfeed
      cases hfeed

theorem soundValue {n : Nat} (ihValue : ∀ m < n, SoundValue m)
    (ihElements : ∀ m < n, SoundElements m) (ihMembers : ∀ m < n, SoundMembers m) :
    SoundValue n := by
  intro stack input r h
  obtain ⟨m, state', rfl, hfeed, hrest⟩ := parseLoop_ok rfl h
  have hfeed : startValue stack (scan input).1 = .ok state' := hfeed
  obtain ⟨before, text, hbefore, hlexeme, hinput⟩ := scan_sound (startValue_isRegular hfeed)
  -- a token that is a value
  have hsingle : ∀ t v, Value text t → Denotes t v → state' = finishValue stack v →
      ∃ k before text t v input', k < m + 1 ∧ IsBlank before ∧ Value text t ∧ Denotes t v ∧
        input = before ++ text ++ input' ∧ parseLoop k (finishValue stack v) input' = .ok r :=
    fun t v hvalue hv hstate =>
      ⟨m, before, text, t, v, _, by omega, hbefore, hvalue, hv, hinput, hstate ▸ hrest⟩
  generalize (scan input).1 = token at hfeed hlexeme
  cases hlexeme with
  | literalTrue => exact hsingle _ _ .true (.boolean true) (Except.ok.inj hfeed).symm
  | literalFalse => exact hsingle _ _ .false (.boolean false) (Except.ok.inj hfeed).symm
  | literalNull => exact hsingle _ _ .null .null (Except.ok.inj hfeed).symm
  | @valueString body chars hspells =>
      have hstring : IsString (quote body) := .quoted hspells.isChars
      exact hsingle _ _ (.string ⟨quote body, hstring⟩) (.string (.spelled hstring hspells))
        (Except.ok.inj hfeed).symm
  | integer hreads =>
      obtain ⟨v, hwrites, hmin, hmax, hstart⟩ := writes_of_readsInteger hreads
      have hnumber : IsNumber text := hwrites.isNumber
      rw [hstart] at hfeed
      exact hsingle _ _ (.number ⟨text, hnumber⟩) (.number hwrites hmin hmax)
        (Except.ok.inj hfeed).symm
  | beginArray =>
      obtain rfl := Except.ok.inj hfeed
      obtain ⟨k, text, t, v, input', hk, hvalue, hv, htext, hloop⟩ := sound_arrayStart
        (fun m hm => ihValue m (by omega)) (fun m hm => ihElements m (by omega)) hrest
      exact ⟨k, before, '[' :: text, t, v, input', by omega, hbefore, hvalue, hv,
        by rw [hinput, htext]; simp, hloop⟩
  | beginObject =>
      obtain rfl := Except.ok.inj hfeed
      obtain ⟨k, text, t, v, input', hk, hvalue, hv, htext, hloop⟩ := sound_objectStart
        (fun m hm => ihValue m (by omega)) (fun m hm => ihMembers m (by omega)) hrest
      exact ⟨k, before, '{' :: text, t, v, input', by omega, hbefore, hvalue, hv,
        by rw [hinput, htext]; simp, hloop⟩
  | _ => cases hfeed

/-- However long the loop runs, a value is read before anything else. -/
theorem sound (n : Nat) : SoundValue n ∧ SoundElements n ∧ SoundMembers n := by
  induction n using Nat.strong_induction_on with
  | _ n ih =>
    have ihValue : ∀ m < n, SoundValue m := fun m hm => (ih m hm).1
    have ihElements : ∀ m < n, SoundElements m := fun m hm => (ih m hm).2.1
    have ihMembers : ∀ m < n, SoundMembers m := fun m hm => (ih m hm).2.2
    exact ⟨soundValue ihValue ihElements ihMembers, soundElements ihValue ihElements,
      soundMembers ihValue ihMembers⟩

/-! ## Whole texts -/

/-- What is parsed: a value after blanks, and the rest is left. -/
theorem parseJson_sound {input rest : List Char} {j : Json} (h : parseJson input = .ok (j, rest)) :
    ∃ text before inner t, skipBom input = some text ∧ IsBlank before ∧ Value inner t ∧
      Denotes t j ∧ text = before ++ inner ++ rest := by
  unfold parseJson at h
  split at h
  · cases h
  next text htext =>
    obtain ⟨m, before, inner, t, v, input', -, hbefore, hvalue, hv, hinput, hloop⟩ :=
      (sound _).1 _ _ _ h
    obtain ⟨rfl, rfl⟩ : v = j ∧ input' = rest := by
      cases m <;> exact Prod.mk.inj (Except.ok.inj hloop)
    exact ⟨text, before, inner, t, htext, hbefore, hvalue, hv, hinput⟩

/-- A value after blanks is parsed, whatever follows, if it does not go on as a number. -/
theorem parseJson_complete {input before inner rest : List Char} {t : Tree} {j : Json}
    (hbom : skipBom input = some (before ++ inner ++ rest)) (hbefore : IsBlank before)
    (hvalue : Value inner t) (hj : Denotes t j) (hends : ∀ n, t = .number n → NumberEnds rest) :
    parseJson input = .ok (j, rest) := by
  unfold parseJson
  rw [hbom]
  exact parseLoop_of_run (parserRun_value t hvalue hj [] hbefore hends) (Nat.lt_succ_self _)

theorem feed_ne_unfinished (state : ParserState) (token : Token) :
    state.feed token ≠ .error .unfinished := by
  cases state <;> cases token <;> exact fun h => nomatch h

theorem parseLoop_ne_unfinished {n : Nat} {state : ParserState} {input : List Char}
    (hn : input.length < n) : parseLoop n state input ≠ .error .unfinished := by
  induction n generalizing state input with
  | zero => cases hn
  | succ n ih =>
      cases hdone : state.isDone with
      | true =>
          cases state with
          | done result => exact fun h => nomatch h
          | _ => cases hdone
      | false =>
          rw [parseLoop_step hdone]
          cases hfeed : state.feed (scan input).1 with
          | error e =>
              rintro h
              have he : e = .unfinished := Except.error.inj h
              exact feed_ne_unfinished _ _ (he ▸ hfeed)
          | ok state' =>
              have hstep : ParserStep (state, input) (state', (scan input).2) := ⟨hdone, hfeed, rfl⟩
              have hlt := hstep.length_lt
              exact ih (by simp only at hlt; omega)

/-- `parse` ends on every text, and what it accepts with nothing but blanks left over are
the documents of the grammar, with the value they denote. -/
theorem parseJson_exact (input : List Char) :
    parseJson input ≠ .error .unfinished ∧
      ∀ j, (∃ rest, parseJson input = .ok (j, rest) ∧ IsBlank rest) ↔
        ∃ text t, skipBom input = some text ∧ IsDocument text t ∧ Denotes t j := by
  constructor
  · unfold parseJson
    split
    · exact fun h => nomatch h
    · exact parseLoop_ne_unfinished (Nat.lt_succ_self _)
  · intro j
    constructor
    · rintro ⟨rest, hparse, hrest⟩
      obtain ⟨text, before, inner, t, hbom, hbefore, hvalue, hj, htext⟩ := parseJson_sound hparse
      exact ⟨text, t, hbom, ⟨before, inner, rest, hbefore, hvalue, hrest, htext⟩, hj⟩
    · rintro ⟨text, t, hbom, ⟨before, inner, after, hbefore, hvalue, hafter, rfl⟩, hj⟩
      have hends : NumberEnds (after ++ []) := numberEnds_append hafter (fun c hc => nomatch hc)
      rw [List.append_nil] at hends
      exact ⟨after, parseJson_complete hbom hbefore hvalue hj fun _ _ => hends, hafter⟩

end TraCR
