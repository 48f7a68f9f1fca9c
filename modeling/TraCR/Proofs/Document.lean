import TraCR.Lib.Tally
import TraCR.Postprocess.PerfettoText
import TraCR.Proofs.ChannelNames
import TraCR.Proofs.Microseconds

/-!
# The document `perfetto` writes

The text is streamed piece by piece.  Each event is a JSON object printed without
blanks, and the commas between the events come out right because every proc begins with
the one event that asks whether it is the first.
-/

namespace TraCR

open TraCR.Lib TraCR.Lib.JsonText TraCR.Lib.Run TraCR.Lib.Tally TraCR.Lib.Traversal

variable {jsonStr : JsonStr}

/-! ## One event -/

def JsonStr.literal (jsonStr : JsonStr) (s : String) : Literal :=
  ⟨(jsonStr.dump s).toList, jsonStr.valid s⟩

def processNameTree (jsonStr : JsonStr) (pid : Int) (name : String) : Tree :=
  .object [(.word "name" (by decide), .string (.word "process_name" (by decide))),
    (.word "ph" (by decide), .string (.word "M" (by decide))),
    (.word "pid" (by decide), .number (.ofInt pid)),
    (.word "args" (by decide), .object [
      (.word "name" (by decide), .string (jsonStr.literal name))])]

def processSortIndexTree (pid : Int) (sortIndex : Nat) : Tree :=
  .object [(.word "name" (by decide), .string (.word "process_sort_index" (by decide))),
    (.word "ph" (by decide), .string (.word "M" (by decide))),
    (.word "pid" (by decide), .number (.ofInt pid)),
    (.word "args" (by decide), .object [
      (.word "sort_index" (by decide), .number (.ofNat sortIndex))])]

def threadNameTree (jsonStr : JsonStr) (pid : Int) (tid : Nat) (name : String) : Tree :=
  .object [(.word "name" (by decide), .string (.word "thread_name" (by decide))),
    (.word "ph" (by decide), .string (.word "M" (by decide))),
    (.word "pid" (by decide), .number (.ofInt pid)),
    (.word "tid" (by decide), .number (.ofNat tid)),
    (.word "args" (by decide), .object [
      (.word "name" (by decide), .string (jsonStr.literal name))])]

/-- Only the end of an arrow binds to the enclosing slice. -/
def flowTree (flow : Flow) : Tree :=
  .object ((.word "name" (by decide), .string (.word "flow" (by decide))) ::
    (.word "cat" (by decide), .string (.word "flow" (by decide))) ::
      ((if flow.isStart then [(.word "ph" (by decide), .string (.word "s" (by decide)))]
        else [(.word "ph" (by decide), .string (.word "f" (by decide))),
          (.word "bp" (by decide), .string (.word "e" (by decide)))]) ++
        [(.word "id" (by decide), .number (.ofNat flow.id.toNat)),
          (.word "ts" (by decide), .number (.fixed 3 flow.ts.toNat)),
          (.word "pid" (by decide), .number (.ofInt flow.pid)),
          (.word "tid" (by decide), .number (.ofNat flow.tid))]))

def extraLabelMembers (jsonStr : JsonStr) : Option String → List (Literal × Tree)
  | none => []
  | some label => [(.word "extra_label" (by decide), .string (jsonStr.literal label))]

def argsMembers (jsonStr : JsonStr) (extraLabel : Option String) :
    Option UInt32 → List (Literal × Tree)
  | none => []
  | some extraId => [(.word "args" (by decide), .object (
      (.word "extra_id" (by decide), .number (.ofNat extraId.toNat)) ::
        extraLabelMembers jsonStr extraLabel))]

def sliceTree (jsonStr : JsonStr) (slice : Slice) : Tree :=
  .object ((.word "name" (by decide), .string (jsonStr.literal slice.name)) ::
    (.word "cat" (by decide), .string (.word "tracr" (by decide))) ::
      (.word "ph" (by decide), .string (.word "X" (by decide))) ::
        (.word "ts" (by decide), .number (.fixed 3 slice.ts.toNat)) ::
          (.word "dur" (by decide), .number (.fixed 3 slice.dur.toNat)) ::
            (.word "pid" (by decide), .number (.ofInt slice.pid)) ::
              (.word "tid" (by decide), .number (.ofNat slice.tid)) ::
                argsMembers jsonStr slice.extraLabel slice.extraId)

def eventTree (jsonStr : JsonStr) : TraceEvent → Tree
  | .processName pid name => processNameTree jsonStr pid name
  | .processSortIndex pid sortIndex => processSortIndexTree pid sortIndex
  | .threadName pid tid name => threadNameTree jsonStr pid tid name
  | .flow flow => flowTree flow
  | .slice slice => sliceTree jsonStr slice

theorem toList_processNameText (pid : Int) (name : String) :
    (processNameText jsonStr pid name).toList =
      (processNameTree jsonStr pid name).compact := by
  unfold processNameText processNameTree
  simp [Tree.compact, compactMember, compactMembers, quote, JsonStr.literal]

theorem toList_processSortIndexText (pid : Int) (sortIndex : Nat) :
    (processSortIndexText pid sortIndex).toList =
      (processSortIndexTree pid sortIndex).compact := by
  unfold processSortIndexText processSortIndexTree
  simp [Tree.compact, compactMember, compactMembers, quote]

theorem toList_threadNameText (pid : Int) (tid : Nat) (name : String) :
    (threadNameText jsonStr pid tid name).toList =
      (threadNameTree jsonStr pid tid name).compact := by
  unfold threadNameText threadNameTree
  simp [Tree.compact, compactMember, compactMembers, quote, JsonStr.literal]

theorem toList_flowText (flow : Flow) :
    (flowText flow).toList = (flowTree flow).compact := by
  unfold flowText flowTree
  cases flow.isStart <;>
    simp [Tree.compact, compactMember, compactMembers, quote, toList_fmtUs]

theorem toList_extraLabelText (extraLabel : Option String) :
    (extraLabelText jsonStr extraLabel).toList =
      compactMembers (extraLabelMembers jsonStr extraLabel) := by
  cases extraLabel with
  | none => rfl
  | some label =>
      unfold extraLabelText extraLabelMembers
      simp [Tree.compact, compactMember, compactMembers, quote, JsonStr.literal]

theorem toList_argsText (extraLabel : Option String) (extraId : Option UInt32) :
    (argsText jsonStr extraLabel extraId).toList =
      compactMembers (argsMembers jsonStr extraLabel extraId) := by
  cases extraId with
  | none => rfl
  | some extraId =>
      unfold argsText argsMembers
      simp [toList_extraLabelText, Tree.compact, compactMember, compactMembers, quote]

theorem toList_sliceText (slice : Slice) :
    (sliceText jsonStr slice).toList = (sliceTree jsonStr slice).compact := by
  unfold sliceText sliceTree
  simp [Tree.compact, compactMember, compactMembers, quote, JsonStr.literal, toList_fmtUs,
    toList_argsText]

theorem toList_eventText (event : TraceEvent) :
    (eventText jsonStr event).toList = (eventTree jsonStr event).compact := by
  cases event with
  | processName pid name => exact toList_processNameText pid name
  | processSortIndex pid sortIndex => exact toList_processSortIndexText pid sortIndex
  | threadName pid tid name => exact toList_threadNameText pid tid name
  | flow flow => exact toList_flowText flow
  | slice slice => exact toList_sliceText slice

/-! ## The stream -/

/-- After the first event every further one follows a comma. -/
theorem emitEvent_of_started {st : PerfettoStream} (h : st.firstEvent = false)
    (event : TraceEvent) :
    emitEvent jsonStr st event = ⟨st.text ++ ",\n" ++ eventText jsonStr event, false⟩ := by
  cases event with
  | processName => simp [emitEvent, emitComma, h]
  | processSortIndex | threadName | flow | slice => simp [emitEvent, h]

theorem foldl_emitEvent (events : List TraceEvent) {st : PerfettoStream}
    (h : st.firstEvent = false) :
    (events.foldl (emitEvent jsonStr) st).text.toList =
      st.text.toList ++ events.flatMap fun event =>
        ',' :: (['\n'] ++ (eventTree jsonStr event).compact) := by
  induction events generalizing st with
  | nil => simp
  | cons event events ih =>
      rw [List.foldl_cons, emitEvent_of_started h, ih rfl, List.flatMap_cons]
      simp [toList_eventText]

def StartsProcess (events : List TraceEvent) : Prop :=
  ∀ event ∈ events.head?, ∃ pid name, event = .processName pid name

theorem perfettoText_array {events : List TraceEvent} (hstart : StartsProcess events) :
    ∃ text, Value ('[' :: (text ++ [']'])) (.array (events.map (eventTree jsonStr))) ∧
      (perfettoText jsonStr events).toList =
        "\x7b\"traceEvents\":[".toList ++ text ++ "]\x7d\n".toList := by
  have hnewline : IsBlank ['\n'] := by simp [IsBlank]
  cases events with
  | nil =>
      refine ⟨['\n', '\n'], .emptyArray (by simp [IsBlank]), ?_⟩
      simp [perfettoText]
  | cons event events =>
      obtain ⟨pid, name, rfl⟩ := hstart event rfl
      refine ⟨_, .array (elements_lines hnewline hnewline
        (eventTree jsonStr (.processName pid name)) (events.map (eventTree jsonStr))), ?_⟩
      rw [perfettoText, String.toList_append, List.foldl_cons, foldl_emitEvent events rfl]
      simp [emitEvent, emitComma, toList_eventText, List.flatMap_map]

theorem perfettoText_document {events : List TraceEvent} (hstart : StartsProcess events) :
    IsDocument (perfettoText jsonStr events).toList
      (.object [(.word "traceEvents" (by decide),
        .array (events.map (eventTree jsonStr)))]) := by
  obtain ⟨text, harray, htext⟩ := @perfettoText_array jsonStr events hstart
  have hmember := @Member.pair [] [] [] _ [] (.word "traceEvents" (by decide)) _ isBlank_nil
    isBlank_nil isBlank_nil harray isBlank_nil
  refine ⟨[], _, ['\n'], isBlank_nil, .object (.last hmember), by simp [IsBlank], ?_⟩
  rw [htext]
  simp [quote]

/-! ## Kinds of objects -/

/-- The phase under which the viewer sorts an object. -/
def hasPhase (phase : String) (t : Tree) : Bool :=
  match t.member? "ph" with
  | some (.string s) => s.1 = quote phase.toList
  | _ => false

def TraceEvent.phase : TraceEvent → String
  | .flow f => if f.isStart then "s" else "f"
  | .slice _ => "X"
  | _ => "M"

theorem quote_inj {s s' : String} : quote s.toList = quote s'.toList ↔ s = s' := by
  rw [quote, quote, List.cons_inj_right, List.append_cancel_right_eq, String.toList_inj]

theorem hasPhase_of_member {t : Tree} {word : String} {hword : word.toList.all isPlain = true}
    (h : t.member? "ph" = some (.string (.word word hword))) (phase : String) :
    hasPhase phase t = decide (word = phase) := by
  unfold hasPhase
  rw [h]
  simp [quote_inj]

theorem hasPhase_eventTree (phase : String) (event : TraceEvent) :
    hasPhase phase (eventTree jsonStr event) = decide (event.phase = phase) := by
  cases event with
  | processName pid name => exact hasPhase_of_member rfl phase
  | processSortIndex pid sortIndex => exact hasPhase_of_member rfl phase
  | threadName pid tid name => exact hasPhase_of_member rfl phase
  | flow f =>
      obtain ⟨isStart, id, ts, pid, tid⟩ := f
      cases isStart with
      | true => exact hasPhase_of_member rfl phase
      | false => exact hasPhase_of_member rfl phase
  | slice s => exact hasPhase_of_member rfl phase

theorem countP_hasPhase (phase : String) (events : List TraceEvent) :
    (events.map (eventTree jsonStr)).countP (hasPhase phase) =
      events.countP fun event => event.phase = phase := by
  rw [List.countP_map]
  apply List.countP_congr
  intro event _
  simp [hasPhase_eventTree]

/-! ## One object for each -/

theorem countP_phase_slice (events : List TraceEvent) :
    events.countP (fun event => event.phase = "X") =
      (events.filterMap TraceEvent.slice?).length := by
  rw [List.length_filterMap_eq_countP]
  apply List.countP_congr
  intro event _
  cases event with
  | flow f => cases h : f.isStart <;> simp [TraceEvent.phase, TraceEvent.slice?, h]
  | processName | processSortIndex | threadName | slice =>
      simp [TraceEvent.phase, TraceEvent.slice?]

theorem countP_phase_flow (events : List TraceEvent) (isStart : Bool) :
    events.countP (fun event => event.phase = if isStart then "s" else "f") =
      (events.filterMap TraceEvent.flow?).countP fun f => f.isStart = isStart := by
  rw [List.countP_filterMap]
  apply List.countP_congr
  intro event _
  cases event with
  | flow f =>
      cases h : f.isStart <;> cases isStart <;> simp [TraceEvent.phase, TraceEvent.flow?, h]
  | processName | processSortIndex | threadName | slice =>
      cases isStart <;> simp [TraceEvent.phase, TraceEvent.flow?]

variable {tables : PerfettoTables} {prevs prevs' : PrevPayloads tables}
  {payloads : List Payload} {obs : List (List TraceEvent)}

/-- One slice for every interval of every channel. -/
theorem emit_sliceCount (hrun : emitPayloads tables payloads = .ok (obs, prevs')) :
    (obs.flatten.filterMap TraceEvent.slice?).length =
      ((List.range tables.numChannels.toNat).map fun c => (intervals c payloads).length).sum := by
  have htrack := emit_onTrack tracks_initial hrun
  have hcover : ∀ s ∈ obs.flatten.filterMap TraceEvent.slice?,
      s.tid ∈ (List.range tables.numChannels.toNat).map (· + 1) := by
    intro s hs
    obtain ⟨-, c, hc, htid⟩ := htrack _ (mem_filterMap_slice?.mp hs)
    exact List.mem_map.mpr ⟨c, List.mem_range.mpr hc, htid.symm⟩
  have hnodup : ((List.range tables.numChannels.toNat).map (· + 1)).Nodup :=
    List.nodup_range.map fun _ _ => Nat.succ.inj
  have hslices : ∀ c, ((obs.flatten.filterMap TraceEvent.slice?).filter
      fun s => s.tid = c + 1).length = (intervals c payloads).length := by
    intro c
    rw [← length_mapM (emitPayloads_slices hrun c), slicesOf]
    congr 1
    apply List.filter_congr
    intro s hs
    obtain ⟨hpid, -⟩ := htrack _ (mem_filterMap_slice?.mp hs)
    simp [hpid]
  rw [← sum_map_length_filter hnodup hcover, List.map_map]
  congr 1
  apply List.map_congr_left
  intro c _
  exact hslices c

/-- The objects a proc contributes: two and one for each channel about the proc itself,
one for each flow payload and one for each slice, and no others. -/
structure ProcObjects (q : HeapTop) (proc : ProcData) (numChannels : Nat)
    (objects : List Tree) : Prop where
  metadata : objects.countP (hasPhase "M") = 2 + numChannels
  flowStarts : objects.countP (hasPhase "s") =
    proc.btsFiles.flatten.countP fun p => p.eventId = eventIdFlowStart
  flowEnds : objects.countP (hasPhase "f") =
    proc.btsFiles.flatten.countP fun p => p.eventId = eventIdFlowEnd
  slices : objects.countP (hasPhase "X") = ((List.range numChannels).map fun c =>
    (intervals c (mergedPayloads q proc.btsFiles)).length).sum
  only : ∀ t ∈ objects, ∃ phase ∈ ["M", "s", "f", "X"], hasPhase phase t = true

theorem metadataEvents_phase {p : Nat} {events : List TraceEvent}
    (h : metadataEvents tables p = .ok events) :
    (∀ event ∈ events, event.phase = "M") ∧ events.length = 2 + tables.numChannels.toNat ∧
      ∃ pid name rest, events = .processName pid name :: rest := by
  obtain ⟨names, hnames, rfl⟩ := metadataEvents_ok_iff.mp h
  have hlength : names.length = tables.numChannels.toNat := by
    simpa using length_mapM hnames
  refine ⟨?_, ?_, _, _, _, rfl⟩
  · simp only [List.forall_mem_cons, List.forall_mem_map]
    exact ⟨rfl, rfl, fun _ _ => rfl⟩
  · simp [hlength]
    omega

theorem emitPayloads_phase (hrun : emitPayloads tables payloads = .ok (obs, prevs')) :
    ∀ event ∈ obs.flatten, event.phase ∈ ["s", "f", "X"] := by
  intro event hevent
  have htrack := emit_onTrack tracks_initial hrun event hevent
  cases event with
  | flow f => cases h : f.isStart <;> simp [TraceEvent.phase, h]
  | slice s => simp [TraceEvent.phase]
  | processName | processSortIndex | threadName => cases htrack

theorem countP_flowEvent (payloads : List Payload) (isStart : Bool) :
    ((payloads.filter Payload.isFlow).map (flowEvent tables)).countP
        (fun f => f.isStart = isStart) =
      payloads.countP fun p =>
        p.eventId = if isStart then eventIdFlowStart else eventIdFlowEnd := by
  rw [List.countP_map, List.countP_filter]
  apply List.countP_congr
  intro p _
  have hne : eventIdFlowStart ≠ eventIdFlowEnd := by decide
  by_cases hstart : p.eventId = eventIdFlowStart
  · cases isStart <;> simp [flowEvent, Payload.isFlow, hstart, hne]
  · cases isStart <;> simp [flowEvent, Payload.isFlow, hstart]

variable {q : HeapTop} {proc : ProcData} {p : Nat} {file : PerfettoFile}

theorem perfettoProc_head (h : perfettoProc q proc p = .ok file) :
    ∃ pid name rest, file.traceEvents = .processName pid name :: rest := by
  obtain ⟨tables, -, metadata, hmetadata, out, -, rfl⟩ := perfettoProc_ok_iff.mp h
  obtain ⟨-, -, pid, name, rest, rfl⟩ := metadataEvents_phase hmetadata
  exact ⟨pid, name, rest ++ out.1.flatten, rfl⟩

theorem procObjects_of_ok (h : perfettoProc q proc p = .ok file) :
    ∃ n, perfettoNumChannels proc.metadata = .ok n ∧
      ProcObjects q proc n.toNat (file.traceEvents.map (eventTree jsonStr)) := by
  obtain ⟨tables, htables, metadata, hmetadata, ⟨obs, prevs⟩, hrun, rfl⟩ :=
    perfettoProc_ok_iff.mp h
  obtain ⟨hphase, hlength, -⟩ := metadataEvents_phase hmetadata
  obtain ⟨hslice, hflow⟩ := metadataEvents_silent hmetadata
  have hloop := emitPayloads_phase hrun
  have hflows : ∀ isStart : Bool, (metadata ++ obs.flatten).countP
      (fun event => event.phase = if isStart then "s" else "f") =
        proc.btsFiles.flatten.countP fun p =>
          p.eventId = if isStart then eventIdFlowStart else eventIdFlowEnd := by
    intro isStart
    rw [countP_phase_flow, List.filterMap_append, hflow, List.nil_append,
      emit_flowPayloads hrun, countP_flowEvent]
    exact (mergedPayloads_perm q proc.btsFiles).countP_eq _
  refine ⟨tables.numChannels, (perfettoTables_ok_iff.mp htables).1, ?_⟩
  constructor
  case metadata =>
    have hnone : obs.flatten.countP (fun event => event.phase = "M") = 0 := by
      rw [List.countP_eq_zero]
      intro event hevent heq
      have hmem := hloop event hevent
      rw [of_decide_eq_true heq] at hmem
      exact absurd hmem (by decide)
    have hall : metadata.countP (fun event => event.phase = "M") = metadata.length := by
      rw [List.countP_eq_length]
      intro event hevent
      exact decide_eq_true (hphase event hevent)
    rw [countP_hasPhase, List.countP_append, hall, hnone, hlength, Nat.add_zero]
  case flowStarts => rw [countP_hasPhase]; exact hflows true
  case flowEnds => rw [countP_hasPhase]; exact hflows false
  case slices =>
    rw [countP_hasPhase, countP_phase_slice, List.filterMap_append, hslice, List.nil_append,
      emit_sliceCount hrun]
  case only =>
    intro t ht
    obtain ⟨event, hevent, rfl⟩ := List.mem_map.mp ht
    refine ⟨event.phase, ?_, by simp [hasPhase_eventTree]⟩
    rcases List.mem_append.mp hevent with hevent | hevent
    · rw [hphase event hevent]
      decide
    · exact List.mem_cons_of_mem _ (hloop event hevent)

/-- What a successful export writes is one JSON object whose array holds the objects of
the procs, proc by proc. -/
theorem perfetto_wellFormed {out : OutputFolder} {procs : List ProcData}
    (h : perfetto q out procs = .ok file) :
    ∃ blocks : List (List Tree),
      IsDocument (perfettoText jsonStr file.traceEvents).toList
          (.object [(.word "traceEvents" (by decide), .array blocks.flatten)]) ∧
        List.Forall₂ (fun proc objects => ∃ n, perfettoNumChannels proc.metadata = .ok n ∧
          ProcObjects q proc n.toNat objects) procs blocks := by
  obtain ⟨files, hfiles, hevents⟩ := perfetto_ok h
  have hstart : StartsProcess file.traceEvents := by
    intro event hevent
    rw [hevents] at hevent
    cases files with
    | nil => cases hevent
    | cons first files =>
        obtain ⟨x, -, hfirst⟩ := exists_of_mem_mapM hfiles List.mem_cons_self
        obtain ⟨pid, name, rest, hhead⟩ := perfettoProc_head hfirst
        rw [List.flatMap_cons, hhead] at hevent
        exact ⟨pid, name, (Option.some.inj hevent).symm⟩
  refine ⟨files.map fun file => file.traceEvents.map (eventTree jsonStr), ?_, ?_⟩
  · have hflatten : (files.map fun file => file.traceEvents.map (eventTree jsonStr)).flatten =
        file.traceEvents.map (eventTree jsonStr) := by
      rw [hevents, List.map_flatMap]
      rfl
    rw [hflatten]
    exact perfettoText_document hstart
  · rw [← List.zipIdx_map_fst 0 procs, List.forall₂_map_left_iff, List.forall₂_map_right_iff]
    exact (mapM_ok_iff.mp hfiles).imp fun _ _ hfile => procObjects_of_ok hfile

/-- Two procs, the second of them with two channels, flows and slices. -/
theorem perfetto_wellFormed_two_procs :
    ∃ file blocks, perfetto .first ⟨true, fun _ => true⟩
        [⟨3, .object [], [], [], 0, 0⟩, twoChannels] = .ok file ∧
      IsDocument (perfettoText .escaping file.traceEvents).toList
        (.object [(.word "traceEvents" (by decide), .array (List.flatten blocks))]) ∧
      List.Forall₂ (fun proc objects => ∃ n, perfettoNumChannels proc.metadata = .ok n ∧
        ProcObjects .first proc n.toNat objects)
        [⟨3, .object [], [], [], 0, 0⟩, twoChannels] blocks := by
  obtain ⟨file, hfile⟩ : ∃ file, perfetto .first ⟨true, fun _ => true⟩
      [⟨3, .object [], [], [], 0, 0⟩, twoChannels] = .ok file := ⟨_, rfl⟩
  obtain ⟨blocks, hdocument, hblocks⟩ := @perfetto_wellFormed .escaping .first file _ _ hfile
  exact ⟨file, blocks, hfile, hdocument, hblocks⟩

end TraCR
