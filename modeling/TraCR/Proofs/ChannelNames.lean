import TraCR.Proofs.Objects
import TraCR.Proofs.Tables

/-!
# The names of channels in both viewers

`perfetto` names the channels of a proc one by one, `paraver` lists the names of all
procs in one table.  Given names are the same in both.  A channel without a name is
`Channel_1` onwards in one and `Channel_0` onwards in the other.
-/

namespace TraCR

open TraCR.Lib.Traversal

/-- Well-typed metadata whose channel count is an integer the JSON library holds. -/
structure ChannelsTyped (metadata : Json) : Prop where
  wellTyped : WellTyped metadata
  inRange : ∀ n, metadata.field? "num_channels" = some (.number n) → -2 ^ 63 ≤ n ∧ n < 2 ^ 64

theorem channelsTyped_names (names : List String) :
    ChannelsTyped (.object [("channel_names", .array (names.map .string))]) where
  wellTyped := {
    channelNames := fun _ h => ⟨names, (Option.some.inj h).symm⟩
    numChannels := fun _ h => nomatch h
    markerLabels := fun _ h => nomatch h
    markerColorIds := fun _ h => nomatch h
    markerTypes := fun _ h => nomatch h
    extraIdLabels := fun _ h => nomatch h }
  inRange := fun _ h => nomatch h

def threadNames (events : List TraceEvent) : List (Nat × String) :=
  events.filterMap fun
    | .threadName _ tid name => some (tid, name)
    | _ => none

def paraverRowNames (procs : List ProcData) (channels : List (Nat × List String)) :
    List String :=
  (procs.zip channels).flatMap fun x => procRowNames (1 < procs.length) x.1 x.2.1 x.2.2

def rowPrefix (procs : List ProcData) (proc : ProcData) : String :=
  if 1 < procs.length then s!"proc.{proc.pid}:" else ""

theorem paraver_rowNames {ch : ParaverChoices} {out : OutputFolder} {procs : List ProcData}
    {files : ParaverFiles} (h : paraver ch out procs = .ok files) :
    ∃ channels, procs.mapM (fun proc => extractChannelInfo proc.metadata) = .ok channels ∧
      files.row = paraverRowNames procs channels := by
  obtain ⟨channels, hchannels, -, hrow⟩ := paraver_ok h
  exact ⟨channels, hchannels, hrow⟩

def SameNames (procs : List ProcData) (p : Nat) (proc : ProcData) : Prop :=
  ∃ channels tables events,
    procs.mapM (fun proc => extractChannelInfo proc.metadata) = .ok channels ∧
      perfettoTables proc = .ok tables ∧ metadataEvents tables p = .ok events ∧
      (channels.map Prod.fst)[p]? = some (threadNames events).length ∧
      ∀ c < (threadNames events).length, ∃ name,
        (threadNames events)[c]? = some (c + 1, name) ∧
          (paraverRowNames procs channels)[((channels.map Prod.fst).take p).sum + c]? =
            some (rowPrefix procs proc ++ name)

/-! ## The two lists of names -/

theorem threadNames_metadataEvents {pid : Int} {name : String} {p n : Nat}
    {names : List String} :
    threadNames (.processName pid name :: .processSortIndex pid p ::
      ((List.range n).zip names).map fun x => .threadName pid (x.1 + 1) x.2) =
        ((List.range n).zip names).map fun x => (x.1 + 1, x.2) := by
  simp [threadNames, List.filterMap_map]

variable {procs : List ProcData} {channels : List (Nat × List String)} {p : Nat}
  {proc : ProcData} {n : Nat} {names : List String}

theorem getElem?_paraverRowNames (hlength : channels.length = procs.length)
    (hproc : procs[p]? = some proc) (hinfo : channels[p]? = some (n, names)) {c : Nat}
    (hc : c < n) :
    (paraverRowNames procs channels)[((channels.map Prod.fst).take p).sum + c]? =
      some (rowPrefix procs proc ++ names.getD c s!"Channel_{c}") := by
  obtain ⟨hp, rfl⟩ := List.getElem?_eq_some_iff.mp hproc
  obtain ⟨hp', hentry⟩ := List.getElem?_eq_some_iff.mp hinfo
  have hzip : p < (procs.zip channels).length := by
    rw [List.length_zip]
    omega
  have hget : (procs.zip channels)[p] = (procs[p], n, names) := by
    rw [List.getElem_zip, hentry]
  have hsum : ((channels.map Prod.fst).take p).sum =
      (((procs.zip channels).take p).map fun x =>
        (procRowNames (1 < procs.length) x.1 x.2.1 x.2.2).length).sum := by
    have hsnd : (procs.zip channels).map Prod.snd = channels :=
      List.map_snd_zip (le_of_eq hlength)
    have hcount : (procs.zip channels).map (fun x =>
        (procRowNames (1 < procs.length) x.1 x.2.1 x.2.2).length) = channels.map Prod.fst := by
      conv_rhs => rw [← hsnd, List.map_map]
      apply List.map_congr_left
      intro x _
      simp [procRowNames]
    rw [← hcount, List.map_take]
  have hrows : (procRowNames (1 < procs.length) procs[p] n names).length = n := by
    simp [procRowNames]
  rw [hsum, paraverRowNames, getElem?_flatMap hzip (by rw [hget, hrows]; exact hc), hget]
  simp only [procRowNames, List.getElem?_map, List.getElem?_range hc, Option.map_some,
    rowPrefix]
  by_cases hmulti : 1 < procs.length
  · simp only [hmulti, decide_true, if_true]
    rfl
  · simp [hmulti]

theorem append_right_inj {s a b : String} : s ++ a = s ++ b ↔ a = b := by
  rw [← String.toList_inj, String.toList_append, String.toList_append,
    List.append_cancel_left_eq, String.toList_inj]

/-- The names agree when the counts do and every name is the one in the row. -/
theorem sameNames_iff_entries {tables : PerfettoTables} {shown : List String}
    (hchannels : procs.mapM (fun proc => extractChannelInfo proc.metadata) = .ok channels)
    (hproc : procs[p]? = some proc) (hinfo : channels[p]? = some (n, names))
    (htables : perfettoTables proc = .ok tables)
    (hshown : (List.range tables.numChannels.toNat).mapM
      (perfettoChannelName tables.channelsJson) = .ok shown) :
    SameNames procs p proc ↔
      shown.length = n ∧ ∀ c (_ : c < shown.length),
        shown[c] = names.getD c s!"Channel_{c}" := by
  have hlength : channels.length = procs.length := length_mapM hchannels
  have hcount : shown.length = tables.numChannels.toNat := by
    simpa using length_mapM hshown
  have hevents := (@metadataEvents_ok_iff tables p _).mpr ⟨shown, hshown, rfl⟩
  have hn : (channels.map Prod.fst)[p]? = some n := by
    rw [List.getElem?_map, hinfo]
    rfl
  have hentry : ∀ c (hc : c < shown.length),
      (((List.range tables.numChannels.toNat).zip shown).map fun x => (x.1 + 1, x.2))[c]? =
        some (c + 1, shown[c]) := by
    intro c hc
    simp [← hcount, hc]
  have hlen : (((List.range tables.numChannels.toNat).zip shown).map
      fun x => (x.1 + 1, x.2)).length = shown.length := by
    simp [← hcount]
  constructor
  · rintro ⟨channels', tables', events', hchannels', htables', hevents', hsame, hnames⟩
    obtain rfl := Except.ok.inj (hchannels.symm.trans hchannels')
    obtain rfl := Except.ok.inj (htables.symm.trans htables')
    obtain rfl := Except.ok.inj (hevents.symm.trans hevents')
    rw [threadNames_metadataEvents, hlen, hn] at hsame
    rw [threadNames_metadataEvents, hlen] at hnames
    refine ⟨(Option.some.inj hsame).symm, fun c hc => ?_⟩
    obtain ⟨name, hname, hrow⟩ := hnames c hc
    rw [hentry c hc] at hname
    rw [getElem?_paraverRowNames hlength hproc hinfo
      (by rw [Option.some.inj hsame]; exact hc)] at hrow
    rw [(Prod.mk.inj (Option.some.inj hname)).2]
    exact (append_right_inj.mp (Option.some.inj hrow)).symm
  · rintro ⟨hsame, hnames⟩
    refine ⟨channels, tables, _, hchannels, htables, hevents, ?_, ?_⟩
    · rw [threadNames_metadataEvents, hlen, hn, hsame]
    · intro c hc
      rw [threadNames_metadataEvents, hlen] at hc
      rw [threadNames_metadataEvents]
      refine ⟨shown[c], hentry c hc, ?_⟩
      rw [getElem?_paraverRowNames hlength hproc hinfo (hsame ▸ hc), hnames c hc]

/-! ## When they agree -/

def NamedOrNone (metadata : Json) : Prop :=
  match metadata.field? "channel_names" with
  | some channels => channels.size < 2 ^ 32
  | none => metadata.field? "num_channels" = some (.number 0)

theorem WellTyped.exists_channelInfo {metadata : Json} (h : WellTyped metadata) :
    ∃ info, extractChannelInfo metadata = .ok info := by
  unfold extractChannelInfo
  cases hnames : metadata.field? "channel_names" with
  | some j =>
      obtain ⟨names, rfl⟩ := h.channelNames j hnames
      exact ⟨_, bind_ok_iff.mpr ⟨names, mapM_getString names, rfl⟩⟩
  | none =>
      cases hcount : metadata.field? "num_channels" with
      | none => exact ⟨_, rfl⟩
      | some j =>
          obtain ⟨m, rfl⟩ := h.numChannels j hcount
          exact ⟨_, rfl⟩

theorem WellTyped.exists_tables (h : WellTyped proc.metadata) :
    ∃ tables, perfettoTables proc = .ok tables := by
  obtain ⟨k, hk⟩ := h.exists_numChannels
  obtain ⟨labels, hlabels⟩ := h.exists_markerLabels
  exact ⟨_, bind_ok_iff.mpr ⟨k, hk, bind_ok_iff.mpr ⟨labels, hlabels, rfl⟩⟩⟩

theorem channelInfo_at
    (hchannels : procs.mapM (fun proc => extractChannelInfo proc.metadata) = .ok channels)
    (hproc : procs[p]? = some proc) :
    ∃ info, channels[p]? = some info ∧ extractChannelInfo proc.metadata = .ok info := by
  obtain ⟨hp, rfl⟩ := List.getElem?_eq_some_iff.mp hproc
  have hp' : p < channels.length := by
    rw [length_mapM hchannels]
    exact hp
  have hget := (List.forall₂_iff_get.mp (mapM_ok_iff.mp hchannels)).2 p hp hp'
  exact ⟨channels[p], List.getElem?_eq_getElem hp', hget⟩

theorem entries_iff_of_names {given shown : List String}
    (hshown : (List.range (given.length % 2 ^ 32)).mapM
      (perfettoChannelName (some (.array (given.map .string)))) = .ok shown) :
    (shown.length = given.length ∧ ∀ c (_ : c < shown.length),
        shown[c] = given.getD c s!"Channel_{c}") ↔ given.length < 2 ^ 32 := by
  obtain ⟨hlength, hget⟩ := List.forall₂_iff_get.mp (mapM_ok_iff.mp hshown)
  rw [List.length_range] at hlength
  have hname : ∀ c (hc : c < shown.length), shown[c] = given.getD c s!"Channel_{c}" := by
    intro c hc
    have hlt : c < given.length := by omega
    have hshow := hget c (by rw [List.length_range]; omega) hc
    have hgiven : perfettoChannelName (some (.array (given.map .string))) c =
        .ok given[c] := by
      simp [perfettoChannelName, hlt, getString, Json.asString?]
    have hsame : shown[c] = given[c] :=
      Except.ok.inj (Eq.trans (by simpa using hshow.symm) hgiven)
    simp [hsame, hlt]
  constructor
  · rintro ⟨hsame, -⟩
    omega
  · intro hlt
    exact ⟨by omega, hname⟩

/-- Generic names never agree: the first channel is `Channel_1` in one list and
`Channel_0` in the other. -/
theorem entries_iff_of_generic {k n : Nat} {shown : List String}
    (hshown : (List.range k).mapM (perfettoChannelName none) = .ok shown) :
    (shown.length = n ∧ ∀ c (_ : c < shown.length),
        shown[c] = ([] : List String).getD c s!"Channel_{c}") ↔ k = 0 ∧ n = 0 := by
  obtain ⟨hlength, hget⟩ := List.forall₂_iff_get.mp (mapM_ok_iff.mp hshown)
  rw [List.length_range] at hlength
  constructor
  · rintro ⟨hsame, hnames⟩
    have hzero : shown.length = 0 := by
      by_contra hpos
      have hpos : 0 < shown.length := by omega
      have hfirst := hget 0 (by rw [List.length_range]; omega) hpos
      have hgeneric : perfettoChannelName none 0 = .ok "Channel_1" := rfl
      have hone : shown[0] = "Channel_1" :=
        Except.ok.inj (Eq.trans (by simpa using hfirst.symm) hgeneric)
      have hother : "Channel_1" = "Channel_0" := hone.symm.trans (hnames 0 hpos)
      exact absurd hother (by decide)
    omega
  · rintro ⟨hk, hn⟩
    refine ⟨by omega, ?_⟩
    intro c hc
    omega

/-- The viewers agree on the channels of a proc exactly when every channel of it is
named, or it has none. -/
theorem sameNames_iff (htyped : ∀ proc ∈ procs, ChannelsTyped proc.metadata)
    (hproc : procs[p]? = some proc) :
    SameNames procs p proc ↔ NamedOrNone proc.metadata := by
  have hmem : proc ∈ procs := List.mem_of_getElem? hproc
  obtain ⟨hwell, hrange⟩ := htyped proc hmem
  obtain ⟨channels, hchannels⟩ := exists_mapM_ok_iff.mpr fun proc hin =>
    (htyped proc hin).wellTyped.exists_channelInfo
  obtain ⟨tables, htables⟩ := hwell.exists_tables
  obtain ⟨hcount, -, -, hjson, -, -⟩ := perfettoTables_ok_iff.mp htables
  obtain ⟨events, hevents⟩ := hwell.exists_metadataEvents rfl htables p
  obtain ⟨shown, hshown, -⟩ := metadataEvents_ok_iff.mp hevents
  obtain ⟨⟨n, names⟩, hinfo, hextract⟩ := channelInfo_at hchannels hproc
  rw [sameNames_iff_entries hchannels hproc hinfo htables hshown]
  obtain ⟨k, hk, hmod⟩ := perfettoNumChannels_of_extractChannelInfo hextract
  obtain rfl := Except.ok.inj (hcount.symm.trans hk)
  rw [hmod, hjson] at hshown
  unfold NamedOrNone
  unfold extractChannelInfo at hextract
  cases hnames : proc.metadata.field? "channel_names" with
  | some j =>
      obtain ⟨given, rfl⟩ := hwell.channelNames j hnames
      rw [hnames] at hextract hshown
      obtain ⟨names', hnames', heq⟩ := bind_ok_iff.mp hextract
      obtain rfl := Except.ok.inj ((mapM_getString given).symm.trans hnames')
      obtain ⟨rfl, rfl⟩ := Prod.mk.inj (pure_ok_iff.mp heq)
      simp only [Json.size, List.length_map] at hshown ⊢
      exact entries_iff_of_names hshown
  | none =>
      rw [hnames] at hextract hshown
      cases hnumber : proc.metadata.field? "num_channels" with
      | none =>
          rw [hnumber] at hextract
          obtain ⟨rfl, rfl⟩ := Prod.mk.inj (Except.ok.inj hextract)
          rw [entries_iff_of_generic hshown]
          simp
      | some j =>
          obtain ⟨m, rfl⟩ := hwell.numChannels j hnumber
          rw [hnumber] at hextract
          obtain ⟨rfl, rfl⟩ := Prod.mk.inj (Except.ok.inj hextract)
          rw [entries_iff_of_generic hshown]
          obtain ⟨hlow, hhigh⟩ := hrange m hnumber
          have hvalue := castUInt64_toNat m
          simp only [Option.some.injEq, Json.number.injEq]
          omega

theorem sameNames_two_procs :
    SameNames [⟨3, .object [("channel_names", .array (["io"].map .string))], [], [], 0, 0⟩,
        ⟨7, .object [("channel_names", .array (["main", "worker"].map .string))], [], [], 0, 0⟩]
      1 ⟨7, .object [("channel_names", .array (["main", "worker"].map .string))],
        [], [], 0, 0⟩ := by
  apply (sameNames_iff ?_ rfl).mpr
  · show 2 < 2 ^ 32
    omega
  · rw [List.forall_mem_cons, List.forall_mem_singleton]
    exact ⟨channelsTyped_names ["io"], channelsTyped_names ["main", "worker"]⟩

/-- One proc with one channel and no names: `Channel_1` in one viewer, `Channel_0` in
the other. -/
theorem channel_names_differ :
    ¬∀ (procs : List ProcData) (p : Nat) (proc : ProcData),
      (∀ proc ∈ procs, ChannelsTyped proc.metadata) → procs[p]? = some proc →
        SameNames procs p proc := by
  intro h
  have hsame := h [⟨7, .object [("num_channels", .number 1)], [], [], 0, 0⟩] 0 _ (by
    intro proc hproc
    rw [List.mem_singleton.mp hproc]
    exact {
      wellTyped := {
        channelNames := fun _ h => nomatch h
        numChannels := fun _ h => ⟨1, (Option.some.inj h).symm⟩
        markerLabels := fun _ h => nomatch h
        markerColorIds := fun _ h => nomatch h
        markerTypes := fun _ h => nomatch h
        extraIdLabels := fun _ h => nomatch h }
      inRange := by
        intro n hn
        obtain rfl := Json.number.inj (Option.some.inj hn)
        omega }) rfl
  obtain ⟨channels, tables, events, hchannels, htables, hevents, -, hnames⟩ := hsame
  obtain rfl := Except.ok.inj (hchannels.symm.trans rfl)
  obtain rfl := Except.ok.inj (htables.symm.trans rfl)
  obtain rfl := Except.ok.inj (hevents.symm.trans rfl)
  obtain ⟨name, hname, hrow⟩ := hnames 0 (by decide)
  obtain rfl : "Channel_1" = name := (Prod.mk.inj (Option.some.inj hname)).2
  have hrow : "Channel_0" = "" ++ "Channel_1" := Option.some.inj hrow
  exact absurd hrow (by decide)

end TraCR
