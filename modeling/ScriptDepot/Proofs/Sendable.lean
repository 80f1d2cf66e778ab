import ScriptDepot.Proofs.Breakdown
import ScriptDepot.Proofs.Json.Acceptance
import ScriptDepot.Proofs.Number.Overflow
/-!
# Which responses can be sent

Names such as `NaN` are refused where a script is read, but a number may be too great for a double
and is read as an infinity all the same, for which there is no JSON text.  Such a number in a stored
script is the one reason why a response is made and cannot be sent.
-/

namespace ScriptDepot

open Json.Grammar

namespace Json

/-- Where a value is due, the text has a number with a fraction or an exponent, which it spells out
to its end. -/
def HasNumeral (text : Text) (negative : Bool) (d : Decimal) : Prop :=
  ∃ inner sign s rest, Due Short nestingLimit text inner (sign ++ s ++ rest) ∧
    Sign sign negative ∧ Fractional s d ∧ Reader.Ends rest

theorem exists_numeral {text : Text} {v : Json} (h : readText .refuse text = .ok v)
    {x : Binary64} (hx : Within (.float x) v) :
    ∃ negative d, HasNumeral text negative d ∧ x = Binary64.ofDecimal negative d := by
  obtain ⟨hbefore, hvalue, hbehind⟩ := readText_eq_ok.mp h
  have hends := Reader.ends_blank hbehind Reader.ends_nil
  rw [List.append_nil] at hends
  obtain ⟨inner, t, tail, hdue, ht, htail⟩ := hvalue.exists_due hx hends
  cases ht with
  | @float _ sign s negative d hsign hs =>
    refine ⟨negative, d, ⟨inner, sign, s, tail, ?_, hsign, hs, htail⟩, rfl⟩
    rw [List.append_assoc]
    exact .mk hbefore hdue

theorem isFinite_of_read {text : Text} {v : Json} (h : readText .refuse text = .ok v) :
    v.isFinite = false ↔ ∃ negative d, HasNumeral text negative d ∧
      Within (.float (Binary64.ofDecimal negative d)) v ∧ Binary64.overflow ≤ d.value := by
  rw [isFinite_eq_false]
  constructor
  · rintro ⟨x, hx, hfinite⟩
    obtain ⟨negative, d, hnumeral, rfl⟩ := exists_numeral h hx
    exact ⟨negative, d, hnumeral, hx, (Binary64.isFinite_ofDecimal negative d).mp hfinite⟩
  · rintro ⟨negative, d, -, hx, hgreat⟩
    exact ⟨_, hx, (Binary64.isFinite_ofDecimal negative d).mpr hgreat⟩

end Json

namespace Store

theorem fetch_eq_ok {store : Store} {name : Text} {v : Json} :
    store.fetch name = .ok v ↔
      ∃ text, store.load name = .ok text ∧ Json.readText .refuse text = .ok v := by
  unfold fetch
  constructor
  · intro h
    split at h
    · cases h
    · rename_i text htext
      split at h <;> cases h
      exact ⟨text, htext, by assumption⟩
  · rintro ⟨text, htext, hread⟩
    rw [htext]
    dsimp only
    rw [hread]

/-- A response that was made can be sent, unless it is a script in which a number too great for a
double occurs. -/
theorem dispatch_encodes_unless_overflow (store : Store) (message : Message) (peer : Option Text)
    (response : Response) (after : Store)
    (h : (store.dispatch message peer).outcome = .ok (response, after)) (e : Failure) :
    response.encode = .error e ↔
      e = Breakdown.notFinite ∧ message.what = "getscript" ∧ message.data.isNull = false ∧
      ∃ text, store.load (scriptName message.data) = .ok text ∧
        Json.readText .refuse text = .ok response.content ∧
        ∃ negative d, Json.HasNumeral text negative d ∧
          Json.Within (.float (Binary64.ofDecimal negative d)) response.content ∧
          Binary64.overflow ≤ d.value := by
  rw [outcome_dispatch_request] at h
  obtain ⟨request, hrequest, hanswer⟩ := bind_eq_ok.mp h
  constructor
  · intro hencode
    obtain ⟨-, rfl, name, script, rfl, hscript, hfinite⟩ := answer_encode_eq_error hanswer hencode
    obtain ⟨hwhat, hdata, rfl⟩ := Message.request_eq_fetch.mp hrequest
    have hcontent : response.content = script := by
      obtain ⟨other, hother, hresponse⟩ := bind_eq_ok.mp hanswer
      rw [hscript] at hother
      cases hother
      cases hresponse
      rfl
    obtain ⟨text, htext, hread⟩ := fetch_eq_ok.mp hscript
    rw [hcontent]
    exact ⟨rfl, hwhat, hdata, text, htext, hread, (Json.isFinite_of_read hread).mp hfinite⟩
  · rintro ⟨rfl, -, -, text, -, hread, hgreat⟩
    exact Response.encode_eq_error.mpr ⟨rfl, (Json.isFinite_of_read hread).mpr hgreat⟩

def holding (script : Text) : Store :=
  ⟨.memory (Ledger.empty.put "a" (script.map fun c => UInt8.ofNat c.val)), defaultCap, false⟩

theorem dispatch_encodes_unless_overflow_negative :
    (dispatch (holding "-1e999") ⟨"getscript", .str "a"⟩ none).outcome =
      .ok (⟨"script", .float (.infinite true)⟩, holding "-1e999") ∧
    ∃ text, (holding "-1e999").load "a" = .ok text ∧
      Json.readText .refuse text = .ok (.float (.infinite true)) ∧
      ∃ negative d, Json.HasNumeral text negative d ∧
        Json.Within (.float (Binary64.ofDecimal negative d)) (.float (.infinite true)) ∧
        Binary64.overflow ≤ d.value := by
  have hresponse : (dispatch (holding "-1e999") ⟨"getscript", .str "a"⟩ none).outcome =
      .ok (⟨"script", .float (.infinite true)⟩, holding "-1e999") := rfl
  have hencode : Response.encode ⟨"script", .float (.infinite true)⟩ =
      .error Breakdown.notFinite := rfl
  obtain ⟨-, -, -, hscript⟩ :=
    (dispatch_encodes_unless_overflow _ _ _ _ _ hresponse _).mp hencode
  exact ⟨hresponse, hscript⟩

theorem overflowing_script_unsendable :
    ∃ response, (dispatch (holding "1e999") ⟨"getscript", .str "a"⟩ none).outcome =
      .ok (response, holding "1e999") ∧ response.encode = .error Breakdown.notFinite :=
  ⟨⟨"script", .float (.infinite false)⟩, rfl, rfl⟩

end Store

end ScriptDepot
