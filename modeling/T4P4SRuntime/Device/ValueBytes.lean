import T4P4SRuntime.Device.InsertSpec
import T4P4SRuntime.L2fwd
import T4P4SRuntime.Library.BigEndian

namespace Device

open IdMap P4v1 Messages Exec

variable {dm : DeviceMgr} {entry : TableEntry} {elem actionElem : Element} {action : P4v1.Action}
  {arg : Argument}

def byteLength (arg : Argument) : Nat := (arg.bitwidth.toNat + 7) / 8

def KeepsNumber (arg : Argument) (value bitmap : Bytes) : Prop :=
  BigEndian.encode (byteLength arg) (BigEndian.value value) = some (bitmap.take (byteLength arg))

def RecordKeepsNumber (arg : Argument) : FieldMatchType → FieldMatchRecord → Prop
  | .exact value, .exact _ _ bitmap => KeepsNumber arg value bitmap
  | .lpm value _, .lpm _ _ bitmap => KeepsNumber arg value bitmap
  | .ternary value mask, .ternary _ _ bitmap maskBytes =>
      KeepsNumber arg value bitmap ∧ KeepsNumber arg mask maskBytes
  | _, _ => False

def MatchKeepsNumber (elem : Element) (m : FieldMatch) (rec : FieldMatchRecord) : Prop :=
  ∃ arg, getArgument elem m.fieldId.toUInt64 = some arg ∧
    RecordKeepsNumber arg m.fieldMatchType rec

def ParamKeepsNumber (elem : Element) (p : Param) (param : ActionParameter) : Prop :=
  ∃ arg, getArgument elem p.paramId.toUInt64 = some arg ∧ KeepsNumber arg p.value param.bitmap

def supportedMatches (ms : List FieldMatch) : List FieldMatch :=
  ms.filter (fun m => FieldMatchType.supported m.fieldMatchType)

def ValuesKeepNumber (dm : DeviceMgr) (entry : TableEntry) : Prop :=
  Refuses (tableInsert dm entry) ∨
    ∃ elem action actionElem msg status, TableResolves dm entry elem ∧
      ActionResolves dm entry action actionElem ∧
      tableInsert dm entry = ⟨[.cb msg], .ok status⟩ ∧
      List.Forall₂ (MatchKeepsNumber elem) (supportedMatches entry.matchList) msg.fieldMatches ∧
      List.Forall₂ (ParamKeepsNumber actionElem) action.params msg.actionParams

def ValueFits (arg : Argument) (value : Bytes) : Prop :=
  value.length = byteLength arg ∨ (byteLength arg < value.length ∧ ∀ b ∈ value, b = 0)

def SwappedFits (arg : Argument) (a b : UInt8) : Prop :=
  (byteLength arg = 2 ∧ a = b) ∨ (byteLength arg = 1 ∧ a = 0) ∨
    (byteLength arg = 0 ∧ a = 0 ∧ b = 0)

def MatchFits (arg : Argument) : FieldMatchType → Prop
  | .exact value | .lpm value _ => ValueFits arg value
  | .ternary value mask => ValueFits arg value ∧ ValueFits arg mask
  | .range _ _ | .other | .notSet => True

def ParamFits (arg : Argument) (value : Bytes) : Prop :=
  if arg.name.val = "type" then
    match value with
    | [a, b] => SwappedFits arg a b
    | _ => ValueFits arg value
  else ValueFits arg value

structure ValuesFit (dm : DeviceMgr) (entry : TableEntry) (elem : Element) : Prop where
  fields : ∀ m ∈ entry.matchList, ∀ arg, getArgument elem m.fieldId.toUInt64 = some arg →
    MatchFits arg m.fieldMatchType
  params : ∀ action actionElem, ActionResolves dm entry action actionElem →
    ∀ p ∈ action.params, ∀ arg, getArgument actionElem p.paramId.toUInt64 = some arg →
      ParamFits arg p.value

theorem keepsNumber_iff (arg : Argument) (value : Bytes) :
    KeepsNumber arg value value ↔ ValueFits arg value :=
  BigEndian.encode_value_take_iff (byteLength arg) value

theorem keepsNumber_swapped_iff (arg : Argument) (a b : UInt8) :
    KeepsNumber arg [a, b] [b, a] ↔ SwappedFits arg a b := by
  have hval : BigEndian.value [a, b] = a.toNat * 256 + b.toNat := by simp [BigEndian.value]
  have ha := a.toNat_lt
  have hb := b.toNat_lt
  rw [KeepsNumber, BigEndian.encode_eq_some_iff, hval, SwappedFits]
  have hn : byteLength arg = 0 ∨ byteLength arg = 1 ∨ byteLength arg = 2 ∨
      2 < byteLength arg := by omega
  rcases hn with hn | hn | hn | hn
  · have hz : 0 = a.toNat * 256 + b.toNat ↔ a.toNat = 0 ∧ b.toNat = 0 := by omega
    simp [hn, hz, BigEndian.value, ← UInt8.toNat_inj]
  · simp [hn, BigEndian.value, ← UInt8.toNat_inj]
  · have hz : b.toNat * 256 + a.toNat = a.toNat * 256 + b.toNat ↔ a.toNat = b.toNat := by omega
    simp [hn, BigEndian.value, hz, ← UInt8.toNat_inj]
  · have hlong : ¬byteLength arg ≤ 2 := by omega
    have h0 : byteLength arg ≠ 0 := by omega
    have h1 : byteLength arg ≠ 1 := by omega
    have h2 : byteLength arg ≠ 2 := by omega
    simp [hlong, h0, h1, h2]

theorem keepsNumber_param_iff (arg : Argument) (p : Param) :
    KeepsNumber arg p.value (genActionParam arg p).bitmap ↔ ParamFits arg p.value := by
  obtain ⟨id, value⟩ := p
  rcases eq_or_ne arg.name.val "type" with ht | ht
  · simp only [genActionParam, ParamFits, ht, if_true]
    match value with
    | [] => exact keepsNumber_iff arg []
    | [a] => exact keepsNumber_iff arg [a]
    | [a, b] => exact keepsNumber_swapped_iff arg a b
    | a :: b :: c :: rest =>
        have hlen : (a :: b :: c :: rest).length ≠ 2 := by simp
        rw [if_neg hlen]
        exact keepsNumber_iff arg _
  · simp only [genActionParam, ParamFits, ht, if_false]
    exact keepsNumber_iff arg value

theorem record_keepsNumber_iff {type : FieldMatchType} {rec : FieldMatchRecord}
    (h : ruleOf arg type = some rec) : RecordKeepsNumber arg type rec ↔ MatchFits arg type := by
  cases type with
  | exact value =>
      obtain rfl := Option.some.inj h
      exact keepsNumber_iff arg value
  | lpm value prefixLen =>
      obtain rfl := Option.some.inj h
      exact keepsNumber_iff arg value
  | ternary value mask =>
      obtain rfl := Option.some.inj h
      exact and_congr (keepsNumber_iff arg value) (keepsNumber_iff arg mask)
  | range | other | notSet => cases h

theorem match_keepsNumber_iff {m : FieldMatch} {rec : FieldMatchRecord}
    (h : recordOf elem m = some rec) : MatchKeepsNumber elem m rec ↔
      ∀ arg, getArgument elem m.fieldId.toUInt64 = some arg → MatchFits arg m.fieldMatchType := by
  obtain ⟨arg, harg, hrule⟩ := Option.bind_eq_some_iff.mp h
  simp [MatchKeepsNumber, harg, record_keepsNumber_iff hrule]

theorem matches_keepNumber_iff (ms : List FieldMatch) (h : FieldsResolve elem ms) :
    List.Forall₂ (MatchKeepsNumber elem) (supportedMatches ms) (ms.filterMap (recordOf elem)) ↔
      ∀ m ∈ ms, ∀ arg, getArgument elem m.fieldId.toUInt64 = some arg →
        MatchFits arg m.fieldMatchType := by
  induction ms with
  | nil => simp [supportedMatches]
  | cons m ms ih =>
      obtain ⟨hm, hms⟩ := fieldsResolve_cons.mp h
      rw [List.forall_mem_cons, ← ih hms]
      cases hs : FieldMatchType.supported m.fieldMatchType with
      | true =>
          obtain ⟨arg, harg⟩ := Option.ne_none_iff_exists'.mp (hm hs)
          obtain ⟨rec, hrec⟩ : ∃ rec, recordOf elem m = some rec := by
            cases ht : m.fieldMatchType <;>
              simp [ht, FieldMatchType.supported, recordOf, harg, ruleOf] at hs ⊢
          have hsup : supportedMatches (m :: ms) = m :: supportedMatches ms :=
            List.filter_cons_of_pos hs
          rw [List.filterMap_cons_some hrec, hsup, List.forall₂_cons, match_keepsNumber_iff hrec]
      | false =>
          have hrec : recordOf elem m = none := by
            cases ht : m.fieldMatchType <;>
              simp [ht, FieldMatchType.supported, recordOf, ruleOf] at hs ⊢
          have hfits : ∀ arg, MatchFits arg m.fieldMatchType := fun arg => by
            cases ht : m.fieldMatchType <;>
              simp [ht, FieldMatchType.supported, MatchFits] at hs ⊢
          have hsup : supportedMatches (m :: ms) = supportedMatches ms :=
            List.filter_cons_of_neg (by simp [hs])
          rw [List.filterMap_cons_none hrec, hsup]
          simp [hfits]

theorem params_keepNumber_iff (ps : List Param) (h : ParamsResolve actionElem ps) :
    List.Forall₂ (ParamKeepsNumber actionElem) ps (ps.filterMap (paramOf actionElem)) ↔
      ∀ p ∈ ps, ∀ arg, getArgument actionElem p.paramId.toUInt64 = some arg →
        ParamFits arg p.value := by
  induction ps with
  | nil => simp
  | cons p ps ih =>
      obtain ⟨hp, hps⟩ := paramsResolve_cons.mp h
      obtain ⟨arg, harg⟩ := Option.ne_none_iff_exists'.mp hp
      have hparam : paramOf actionElem p = some (genActionParam arg p) := by simp [paramOf, harg]
      rw [List.filterMap_cons_some hparam, List.forall₂_cons, List.forall_mem_cons, ← ih hps]
      simp [ParamKeepsNumber, harg, keepsNumber_param_iff]

theorem message_keepsNumber_iff (h : InsertClean dm entry elem)
    (ha : ActionResolves dm entry action actionElem) :
    (List.Forall₂ (MatchKeepsNumber elem) (supportedMatches entry.matchList)
        (insertMessage elem actionElem entry action).fieldMatches ∧
      List.Forall₂ (ParamKeepsNumber actionElem) action.params
        (insertMessage elem actionElem entry action).actionParams) ↔
      ValuesFit dm entry elem := by
  rw [insertMessage, matches_keepNumber_iff _ h.fields,
    params_keepNumber_iff _ (h.params action actionElem ha)]
  constructor
  · rintro ⟨hfields, hparams⟩
    refine ⟨hfields, fun action' actionElem' ha' => ?_⟩
    obtain rfl := TableAction.action.inj (ha.1.symm.trans ha'.1)
    obtain rfl := Option.some.inj (ha.2.symm.trans ha'.2)
    exact hparams
  · intro hfit
    exact ⟨hfit.fields, hfit.params action actionElem ha⟩

theorem valuesFit_of_keepNumber (h : ValuesKeepNumber dm entry) :
    ∃ elem, InsertClean dm entry elem ∧
      ((∀ action actionElem, ¬ActionResolves dm entry action actionElem) ∨
        RejectionStands entry.matchList ∨ ValuesFit dm entry elem) := by
  rcases h with hr | ⟨elem, action, actionElem, msg, status, ht, ha, he, hkeep⟩
  · obtain ⟨elem, hc, hcase⟩ := refuses_tableInsert_iff.mp hr
    exact ⟨elem, hc, hcase.elim Or.inl (Or.inr ∘ Or.inl)⟩
  · have hclean : ∃ elem', InsertClean dm entry elem' := by
      by_contra hno
      obtain ⟨f, hf⟩ := @tableInsert_faults dm entry fun elem' hc => hno ⟨elem', hc⟩
      simp [he, fault] at hf
    obtain ⟨elem', hc⟩ := hclean
    obtain rfl := Option.some.inj (ht.symm.trans hc.table)
    refine ⟨elem, hc, Or.inr (Or.inr ((message_keepsNumber_iff hc ha).mp ?_))⟩
    rw [tableInsert_of_action hc ha] at he
    split at he
    · obtain rfl : insertMessage elem actionElem entry action = msg := by simpa using (mk.inj he).1
      exact hkeep
    · simp [pure_def] at he

theorem keepNumber_of_valuesFit (h : InsertClean dm entry elem) (hfit : ValuesFit dm entry elem) :
    ValuesKeepNumber dm entry := by
  by_cases hr : (∀ action actionElem, ¬ActionResolves dm entry action actionElem) ∨
      RejectionStands entry.matchList
  · exact Or.inl (refuses_tableInsert_iff.mpr ⟨elem, h, hr⟩)
  · push Not at hr
    obtain ⟨⟨action, actionElem, ha⟩, hstands⟩ := hr
    refine Or.inr ⟨elem, action, actionElem, _, Status.success, h.table, ha, ?_,
      (message_keepsNumber_iff h ha).mpr hfit⟩
    rw [tableInsert_of_action h ha, if_pos (matchStatus_ok hstands)]

theorem values_keep_number_iff :
    ValuesKeepNumber dm entry ↔
      ∃ elem, InsertClean dm entry elem ∧
        ((∀ action actionElem, ¬ActionResolves dm entry action actionElem) ∨
          RejectionStands entry.matchList ∨ ValuesFit dm entry elem) := by
  constructor
  · exact valuesFit_of_keepNumber
  · rintro ⟨elem, hc, hno | hr | hfit⟩
    · exact Or.inl (refuses_tableInsert_iff.mpr ⟨elem, hc, Or.inl hno⟩)
    · exact Or.inl (refuses_tableInsert_iff.mpr ⟨elem, hc, Or.inr hr⟩)
    · exact keepNumber_of_valuesFit hc hfit

namespace ValueBytes

def shortAddress : TableEntry :=
  { tableId := 33610402
    matchList := [{ fieldId := 1, fieldMatchType := .exact [7] }]
    action := .action { actionId := 16811908, params := [{ paramId := 1, value := [0, 3] }] }
    isDefaultAction := false }

theorem short_value_loses_number :
    Reachable 1 L2fwd.server (some L2fwd.p4info) ∧
      ¬ValuesKeepNumber L2fwd.server.dm shortAddress := by
  refine ⟨L2fwd.reachable_server, fun h => ?_⟩
  obtain ⟨elem, hc, hno | hr | hfit⟩ := valuesFit_of_keepNumber h
  · have hforward : getElement L2fwd.server.dm.idMap 16811908 ≠ none := by decide
    obtain ⟨actionElem, he⟩ := Option.ne_none_iff_exists'.mp hforward
    exact hno _ actionElem ⟨rfl, he⟩
  · exact not_rejectionStands_of_supported (by decide) hr
  · have hwidth : ((getElement L2fwd.server.dm.idMap 33610402).bind (getArgument · 1)).map
        byteLength = some 6 := by decide
    have ht : getElement L2fwd.server.dm.idMap 33610402 = some elem := hc.table
    rw [ht, Option.bind_some] at hwidth
    obtain ⟨arg, harg, hlen⟩ := Option.map_eq_some_iff.mp hwidth
    have hbytes : ValueFits arg [7] := hfit.fields _ (List.mem_singleton.mpr rfl) arg harg
    rcases hbytes with h | h
    · simp [hlen] at h
    · simp [hlen] at h

end ValueBytes

end Device
