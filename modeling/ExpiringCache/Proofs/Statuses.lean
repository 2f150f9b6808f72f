import ExpiringCache.Health.Monitor
import ExpiringCache.Proofs.Fields

/-! A health status survives its document. What is written for a string is one of its
spellings, so a status is read back from its own document, and two statuses never share one.
A text that is accepted says nothing beyond its status: written again, it is the document of
that status, which for a probe's outcome is the one that the health check sends. -/

namespace ExpiringCache

open Json

namespace Json

/-! ### Strings -/

theorem isHexDigit_hexDigit : ∀ n < 16, IsHexDigit (hexDigit n) n := by decide

/-- A character is escaped by one of its spellings. -/
theorem spellsChar_escapeChar (c : Char) : SpellsChar c (escapeChar c) := by
  unfold escapeChar
  split
  case h_8 =>
    split
    · rename_i hcontrol
      have hdigits : SpellsUnit (0x1000 * 0 + 0x100 * 0 + 0x10 * (c.toNat / 16) + c.toNat % 16)
          ['0', '0', hexDigit (c.toNat / 16), hexDigit (c.toNat % 16)] :=
        .digits (by decide) (by decide) (isHexDigit_hexDigit _ (by omega))
          (isHexDigit_hexDigit _ (by omega))
      have hvalue : 0x1000 * 0 + 0x100 * 0 + 0x10 * (c.toNat / 16) + c.toNat % 16 = c.toNat := by
        omega
      rw [hvalue] at hdigits
      exact .unit hdigits
    · exact .plain ‹_› ‹_› (by omega)
  all_goals exact .letter (by decide)

theorem spellsText_flatMap_escapeChar (cs : List Char) : SpellsText cs (cs.flatMap escapeChar) := by
  induction cs with
  | nil => exact .nil
  | cons c cs ih => exact .cons (spellsChar_escapeChar c) ih

/-- A string is quoted as one of its texts. -/
theorem spells_quote (s : String) : Spells (.value (.text s)) (quote s).toList := by
  rw [quote, String.toList_ofList, quoteChars]
  exact .text (spellsText_flatMap_escapeChar s.toList)

/-- The string that a field of a status may be. -/
def Value.text? : Value → Option String
  | .text s => some s
  | _ => none

theorem Value.text?_eq_some_iff {v : Value} {s : String} : v.text? = some s ↔ v = .text s := by
  cases v <;> simp [Value.text?]

theorem reads_readString : Reads readString Value.text? := by
  intro v a t r ha h hr
  rw [readString, readAs_value "a string" rfl rfl ha h hr]
  cases v <;> rfl

end Json

namespace HealthStatus

/-- A status is read off the records of a string, and off no other document. -/
theorem parse_eq_ok_iff {v : Value} {text : String} (h : v.IsWrittenAs text) {s : String} :
    HealthStatus.parse text = .ok ⟨s⟩ ↔ v.Carries "status" (.text s) := by
  have hmk : Function.Injective HealthStatus.mk := fun _ _ => HealthStatus.mk.inj
  rw [HealthStatus.parse, map_parse_eq_ok_iff (f := HealthStatus.field) hmk reads_readString h]
  simp only [Value.text?_eq_some_iff]
  constructor
  · rintro ⟨w, hw, rfl⟩
    exact hw
  · intro hw
    exact ⟨_, hw, rfl⟩

/-- The document of a status is one of the texts of its record. -/
theorem isWrittenAs_json (h : HealthStatus) :
    Value.IsWrittenAs (.object [("status", .text h.status)]) h.json := by
  have hmember : Spells (.member ("status", .text h.status))
      ('"' :: "status".toList ++ '"' :: ':' :: (quote h.status).toList) :=
    .member (a := []) (b := []) blanks_nil (.plain (by simp)) blanks_nil
      (spells_quote h.status).bare
  have hjson : h.json.toList =
      '\x7b' :: ('"' :: "status".toList ++ '"' :: ':' :: (quote h.status).toList) ++ ['\x7d'] := by
    simp [HealthStatus.json]
  rw [Value.IsWrittenAs, hjson]
  exact (Spells.object (.lastMember hmember)).bare

theorem parse_json (h : HealthStatus) : HealthStatus.parse h.json = .ok h :=
  (parse_eq_ok_iff h.isWrittenAs_json).2 (.inl ⟨_, rfl, rfl⟩)

theorem json_injective {h h' : HealthStatus} (heq : h.json = h'.json) : h = h' := by
  have hparse := parse_json h'
  rw [← heq, parse_json] at hparse
  exact Except.ok.inj hparse

theorem json_eq_iff {h h' : HealthStatus} : h.json = h'.json ↔ h = h' :=
  ⟨json_injective, congrArg json⟩

/-- A health check sends the document of the status that it has found. -/
theorem step_json_fst {m : HealthMonitor} {b : Bool} (hb : m.check.1 = .ok b) :
    (m.step .json).1 = .json (HealthStatus.ofBool b).json := by
  have hreply : (m.checkAs fun b => .json (HealthStatus.ofBool b).json).1 =
      .json (HealthStatus.ofBool b).json := by
    rw [HealthMonitor.checkAs]
    split <;> simp_all
  exact hreply

/-- Written texts carry at most one status, the one that is read. -/
theorem carries_iff_of_parse {v : Value} {text : String} (hv : v.IsWrittenAs text)
    {h : HealthStatus} (hparse : HealthStatus.parse text = .ok h) (s : String) :
    v.Carries "status" (.text s) ↔ h = ⟨s⟩ := by
  rw [← parse_eq_ok_iff hv, hparse, Except.ok.injEq]

/-- Every status is read back from its document, and no two statuses share a document. A text
is accepted exactly if it is a record of a string. Whatever its spelling, the document of what
it stands for is read as the same status; so two texts stand for one status exactly if they
lead to one document, and a text stands for what a health check finds exactly if it leads to
the document that the check sends. -/
theorem survives_document :
    (∀ h : HealthStatus, HealthStatus.parse h.json = .ok h) ∧
    Function.Injective HealthStatus.json ∧
    (∀ {v : Value} {text : String}, v.IsWrittenAs text → ∀ s,
      HealthStatus.parse text = .ok ⟨s⟩ ↔ v.Carries "status" (.text s)) ∧
    ∀ {text : String} {h : HealthStatus}, HealthStatus.parse text = .ok h →
      HealthStatus.parse h.json = .ok h ∧
      (∀ {text' : String} {h' : HealthStatus}, HealthStatus.parse text' = .ok h' →
        (h.json = h'.json ↔ h = h') ∧
        ∀ {v v' : Value}, v.IsWrittenAs text → v'.IsWrittenAs text' →
          (h.json = h'.json ↔
            ∀ s, v.Carries "status" (.text s) ↔ v'.Carries "status" (.text s))) ∧
      ∀ {m : HealthMonitor} {b : Bool}, m.check.1 = .ok b →
        (h = .ofBool b ↔ (m.step .json).1 = .json h.json) := by
  refine ⟨parse_json, fun _ _ => json_injective, fun hv _ => parse_eq_ok_iff hv, ?_⟩
  intro text h hparse
  refine ⟨parse_json h, fun {text' h'} hparse' => ⟨json_eq_iff, fun {v v'} hv hv' => ?_⟩, ?_⟩
  · simp only [json_eq_iff, carries_iff_of_parse hv hparse, carries_iff_of_parse hv' hparse']
    constructor
    · rintro rfl s
      exact Iff.rfl
    · intro hsame
      exact (hsame h'.status).2 rfl
  · intro m b hb
    rw [step_json_fst hb, MonitorReply.json.injEq, json_eq_iff, eq_comm]

/-- The status may be spelled by an escape and stand alone in a list. -/
theorem survives_document_escaped :
    HealthStatus.parse "[\"\\u006fk\"]" = .ok (.ofBool true) ∧
    ((HealthMonitor.start 1000000000 ⟨⟨0, .value ()⟩, []⟩ 0).step .json).1 =
      .json "\x7b\"status\":\"ok\"\x7d" := by
  have hunit : SpellsUnit 'o'.toNat ['0', '0', '6', 'f'] :=
    .digits (a := 0) (b := 0) (c := 6) (d := 15) (by decide) (by decide) (by decide) (by decide)
  have hrest : SpellsText "k".toList "k".toList := .plain (by simp)
  have htext : SpellsText "ok".toList "\\u006fk".toList := .cons (.unit hunit) hrest
  have hwritten : Value.IsWrittenAs (.list [.text "ok"]) "[\"\\u006fk\"]" :=
    (Spells.list (.lastElement (Spells.text htext).bare)).bare
  obtain ⟨-, -, haccepts, hsurvives⟩ := survives_document
  have hparse := (haccepts hwritten "ok").2 (.inr rfl)
  obtain ⟨-, -, hsent⟩ := hsurvives hparse
  exact ⟨hparse, (hsent (b := true) rfl).1 rfl⟩

end HealthStatus

end ExpiringCache
