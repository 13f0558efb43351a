import K3smApis.GoJsonReads
import K3smApis.InterconnectPayload

/-!
# The interconnect ledger

`net/v1alpha1/interconnectledger.go`: the file in which the network helper records the address
aliases it owns. The helper rewrites the file on every change and reads it back at start. An
address is any string: the file holds it as JSON text, so a byte that is not UTF-8 comes back
as U+FFFD.
-/
namespace K3smApis.Interconnect
open GoJson
open Budget (Slice int64 string foldName)

structure InterconnectLedgerEntry where
  slot : Int64 := 0
  address : GoString := []
  deriving DecidableEq, Repr

structure InterconnectLedger where
  aliases : Slice InterconnectLedgerEntry := none
  deriving DecidableEq, Repr

def InterconnectLedgerEntry.goType : GoType InterconnectLedgerEntry :=
  .struct (
    .field (lit "slot") .never int64 <|
    .field (lit "address") .never string <|
    .nil)
    ⟨fun s => (s.slot, s.address, ()), fun (a, b, ()) => ⟨a, b⟩, fun _ => rfl, fun _ => rfl⟩

def InterconnectLedger.goType : GoType InterconnectLedger :=
  .struct (
    .field (lit "aliases") .never (.slice InterconnectLedgerEntry.goType) <|
    .nil)
    ⟨fun s => (s.aliases, ()), fun (a, ()) => ⟨a⟩, fun _ => rfl, fun _ => rfl⟩

/-- The order of the entries: `cmp.Compare(a.Slot, b.Slot)`. -/
def slotLe (a b : InterconnectLedgerEntry) : Bool := a.slot ≤ b.slot

/-- `slices.SortStableFunc` by `Slot`. -/
def sortBySlot (es : List InterconnectLedgerEntry) : List InterconnectLedgerEntry :=
  es.mergeSort slotLe

/-- `ParseInterconnectLedger`. -/
def parseInterconnectLedger (raw : GoString) : Option InterconnectLedger :=
  (Json.parse raw).bind (InterconnectLedger.goType.unmarshal foldName)

/-- `Marshal`: compact JSON and a line feed. -/
def InterconnectLedger.marshal (l : InterconnectLedger) : GoString :=
  (InterconnectLedger.goType.encode ⟨some (sortBySlot l.aliases.list)⟩).print ++ [0x0a]

theorem slotLe_trans (a b c : InterconnectLedgerEntry) (hab : slotLe a b = true)
    (hbc : slotLe b c = true) : slotLe a c = true := by
  rw [slotLe, decide_eq_true_eq] at *
  exact Int64.le_trans hab hbc

theorem slotLe_total (a b : InterconnectLedgerEntry) : (slotLe a b || slotLe b a) = true := by
  rw [slotLe, slotLe, Bool.or_eq_true, decide_eq_true_eq, decide_eq_true_eq]
  exact Int64.le_total a.slot b.slot

theorem sortBySlot_sorted (es : List InterconnectLedgerEntry) :
    (sortBySlot es).Pairwise (fun a b => slotLe a b = true) :=
  List.pairwise_mergeSort slotLe_trans slotLe_total es

/-- Entries of one slot stay in the order they had. -/
theorem filter_sortBySlot (es : List InterconnectLedgerEntry) (s : Int64) :
    (sortBySlot es).filter (fun e => e.slot = s) = es.filter (fun e => e.slot = s) := by
  have hsorted : (es.filter (fun e => e.slot = s)).Pairwise (fun a b => slotLe a b = true) := by
    refine List.pairwise_of_forall_mem_list fun a ha b hb => ?_
    have ha := (List.mem_filter.mp ha).2
    have hb := (List.mem_filter.mp hb).2
    rw [decide_eq_true_eq] at ha hb
    rw [slotLe, ha, hb, decide_eq_true_eq]
    exact Int64.le_refl s
  have hsub : (es.filter (fun e => e.slot = s)).Sublist (sortBySlot es) :=
    List.sublist_mergeSort slotLe_trans slotLe_total hsorted List.filter_sublist
  have hfilter := hsub.filter (fun e => e.slot = s)
  rw [List.filter_filter, List.filter_congr (fun e _ => Bool.and_self _)] at hfilter
  refine (hfilter.eq_of_length ?_).symm
  exact (((List.mergeSort_perm es slotLe).filter (fun e => e.slot = s)).length_eq).symm

/-- An entry with its address as JSON text can hold it. -/
def InterconnectLedgerEntry.cleaned (e : InterconnectLedgerEntry) : InterconnectLedgerEntry :=
  { e with address := Json.clean e.address }

theorem encode_cleaned (es : List InterconnectLedgerEntry) :
    (InterconnectLedger.goType.encode ⟨some es⟩).cleaned =
      InterconnectLedger.goType.encode ⟨some (es.map InterconnectLedgerEntry.cleaned)⟩ := by
  have hentry (e : InterconnectLedgerEntry) : (InterconnectLedgerEntry.goType.encode e).cleaned =
      InterconnectLedgerEntry.goType.encode e.cleaned := rfl
  have hobj (es : List InterconnectLedgerEntry) : InterconnectLedger.goType.encode ⟨some es⟩ =
      .obj [(lit "aliases", .arr (es.map InterconnectLedgerEntry.goType.encode))] := rfl
  rw [hobj, hobj, Json.cleaned, Json.cleanedMembers, Json.cleanedMembers, Json.cleaned,
    Json.cleanedElements_eq, List.map_map, List.map_map]
  have hname : Json.clean (lit "aliases") = lit "aliases" := by decide +kernel
  rw [hname]
  exact congrArg (fun vs => Json.obj [(lit "aliases", Json.arr vs)])
    (List.map_congr_left fun e _ => hentry e)

theorem readsBack_entry {e : InterconnectLedgerEntry} (h : Json.WellFormed e.address) :
    ReadsBack InterconnectLedgerEntry.goType e e := by
  refine ReadsBack.struct (by decide) (by decide +kernel) ⟨?_, ?_, trivial⟩
  · exact (Budget.encodes_int64 e.slot).readsBack
  · exact ⟨fun l hl => by rw [List.mem_singleton.mp hl]; trivial, congrArg Json.str h, rfl⟩

theorem readsBack_ledger {es : List InterconnectLedgerEntry}
    (h : ∀ e ∈ es, Json.WellFormed e.address) :
    ReadsBack InterconnectLedger.goType ⟨some es⟩ ⟨some es⟩ := by
  refine ReadsBack.struct (by decide) (by decide +kernel) ⟨?_, trivial⟩
  exact ReadsBack.elements (List.forall₂_same.mpr fun e he => readsBack_entry (h e he))

theorem integers_encode (es : List InterconnectLedgerEntry) :
    (InterconnectLedger.goType.encode ⟨some es⟩).Integers := by
  have hparts : OfParts Json.Integers :=
    ⟨fun l hl => by rw [List.mem_singleton.mp hl]; trivial, fun _ => Json.integers_arr,
      fun _ => Json.integers_obj⟩
  refine InterconnectLedger.goType.encode_of_leaves hparts ⟨⟨?_, ?_, trivial⟩, trivial⟩ _
  · exact fun x l hl => by rw [List.mem_singleton.mp hl]; exact ⟨_, rfl⟩
  · exact fun x l hl => by rw [List.mem_singleton.mp hl]; trivial

/-- A file is read back with the entries in order and their addresses cleaned. -/
theorem parse_marshal (l : InterconnectLedger) : parseInterconnectLedger l.marshal =
    some ⟨some ((sortBySlot l.aliases.list).map InterconnectLedgerEntry.cleaned)⟩ := by
  have hwell : ∀ e ∈ (sortBySlot l.aliases.list).map InterconnectLedgerEntry.cleaned,
      Json.WellFormed e.address := by
    intro e he
    obtain ⟨x, -, rfl⟩ := List.mem_map.mp he
    exact Json.clean_clean x.address
  have hparse := Json.parse_print_cleaned (integers_encode (sortBySlot l.aliases.list))
    (t := [0x0a]) (fun b hb => by obtain rfl := Option.some.inj hb; decide) rfl
  rw [encode_cleaned] at hparse
  have hnames : InterconnectLedger.goType.NamesDistinct := by decide +kernel
  rw [parseInterconnectLedger, InterconnectLedger.marshal, hparse, Option.bind_some,
    GoType.unmarshal, GoType.known_of_exactKeys _ (GoType.encode_exactKeys _ hnames _),
    GoType.decode_encode hnames, (readsBack_ledger hwell).reads]

/-- Whatever the ledger holds, the file is read back: every slot has its entries, in the order
they had and with the addresses as JSON text can hold them, and the slots ascend. What was read
back comes back as it is from then on; and where the addresses are UTF-8 the file it writes is
the same file. -/
theorem ledger_read_back (l : InterconnectLedger) :
    ∃ l', parseInterconnectLedger l.marshal = some l' ∧
      (∀ s, l'.aliases.list.filter (fun e => e.slot = s) =
        (l.aliases.list.filter (fun e => e.slot = s)).map InterconnectLedgerEntry.cleaned) ∧
      l'.aliases.list.Pairwise (fun a b => slotLe a b = true) ∧
      parseInterconnectLedger l'.marshal = some l' ∧
      ((∀ e ∈ l.aliases.list, Json.WellFormed e.address) → l'.marshal = l.marshal) := by
  have hsorted : ((sortBySlot l.aliases.list).map InterconnectLedgerEntry.cleaned).Pairwise
      (fun a b => slotLe a b = true) :=
    List.pairwise_map.mpr (sortBySlot_sorted l.aliases.list)
  have hsort : sortBySlot ((sortBySlot l.aliases.list).map InterconnectLedgerEntry.cleaned) =
      (sortBySlot l.aliases.list).map InterconnectLedgerEntry.cleaned :=
    List.mergeSort_of_pairwise hsorted
  refine ⟨_, parse_marshal l, fun s => ?_, hsorted, ?_, fun hwell => ?_⟩
  · show ((sortBySlot l.aliases.list).map InterconnectLedgerEntry.cleaned).filter _ = _
    rw [List.filter_map, ← filter_sortBySlot]
    rfl
  · rw [parse_marshal]
    show some (InterconnectLedger.mk (some ((sortBySlot ((sortBySlot l.aliases.list).map
      InterconnectLedgerEntry.cleaned)).map InterconnectLedgerEntry.cleaned))) = _
    rw [hsort, List.map_map]
    refine congrArg (fun es => some (InterconnectLedger.mk (some es))) (List.map_congr_left ?_)
    intro e _
    simp [InterconnectLedgerEntry.cleaned, Json.clean_clean]
  · have hself : (sortBySlot l.aliases.list).map InterconnectLedgerEntry.cleaned =
        sortBySlot l.aliases.list := by
      refine (List.map_congr_left fun e he => ?_).trans (List.map_id' _)
      have hmem : e ∈ l.aliases.list := (List.mergeSort_perm _ slotLe).mem_iff.mp he
      rw [InterconnectLedgerEntry.cleaned, hwell e hmem]
    show (InterconnectLedger.goType.encode ⟨some (sortBySlot ((sortBySlot l.aliases.list).map
      InterconnectLedgerEntry.cleaned))⟩).print ++ [0x0a] = _
    rw [hsort, hself]
    rfl

end K3smApis.Interconnect
