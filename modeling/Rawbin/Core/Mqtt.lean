import Rawbin.Api.Schemas
import Rawbin.Core.Json

/-!
# Telemetry over MQTT

`SensorReadingIn` of `app/schemas/telemetry.py`, and the client of `app/core/mqtt.py` up to the
hand-over of a reading to the event loop.

The network thread of the MQTT library calls `on_message` for one message after the other. An
exception that escapes from it ends the thread. The listener stops the thread before its event
loop ends, so the loop does not go away during a call.
-/

namespace Rawbin

/-! ## Readings -/

/-- The conversions of pydantic in its lax mode; `none` is a validation error. -/
structure Pydantic where
  float : Json → Option PyFloat
  int : Json → Option Int
  str : Json → Option String
  datetime : Json → Option PyDatetime

structure SensorReadingIn where
  time : PyDatetime
  temperatureC : Option PyFloat
  humidityPct : Option PyFloat
  co2Ppm : Option PyFloat
  phLevel : Option PyFloat
  ambientTempC : Option PyFloat
  fanSpeedRpm : Option Int
  fillLevelPct : Option PyFloat
  weightKg : Option PyFloat
  firmwareVersion : Option String
  deriving DecidableEq

variable (P : Pydantic)

/-- A field with the default `None`; null is `None` too. -/
def optionalField (members : List (PyStr × Json)) (key : String) (convert : Json → Option α) :
    Option (Option α) :=
  match Json.lookup members key with
  | none => some none
  | some .null => some none
  | some value => (convert value).map some

/-- `Optional[float] = Field(default=None, ge=ge, le=le)`. A value is rejected unless it is on the
right side of both bounds; NaN is on neither side of any. -/
def floatField (members : List (PyStr × Json)) (key : String) (ge le : ℚ) :
    Option (Option PyFloat) :=
  optionalField members key fun value => (P.float value).filter fun x => x.ge ge && x.le le

/-- `Optional[int] = Field(default=None, ge=ge, le=le)` -/
def intField (members : List (PyStr × Json)) (key : String) (ge le : Int) : Option (Option Int) :=
  optionalField members key fun value => (P.int value).filter fun n => ge ≤ n && n ≤ le

/-- `Optional[str] = Field(default=None, max_length=maxLength)` -/
def strField (members : List (PyStr × Json)) (key : String) (maxLength : Nat) :
    Option (Option String) :=
  optionalField members key fun value => (P.str value).filter fun s => s.length ≤ maxLength

/-- `SensorReadingIn(**data)`; `none` is a `ValidationError`, or a `TypeError` when `data` is no
object. Members without a field are ignored. -/
def SensorReadingIn.validate : Json → Option SensorReadingIn
  | .object members => do
    let time ← (Json.lookup members "time").bind P.datetime
    let temperatureC ← floatField P members "temperature_c" (-40) 150
    let humidityPct ← floatField P members "humidity_pct" 0 100
    let co2Ppm ← floatField P members "co2_ppm" 0 50000
    let phLevel ← floatField P members "ph_level" 0 14
    let ambientTempC ← floatField P members "ambient_temp_c" (-40) 85
    let fanSpeedRpm ← intField P members "fan_speed_rpm" 0 10000
    let fillLevelPct ← floatField P members "fill_level_pct" 0 100
    let weightKg ← floatField P members "weight_kg" 0 50
    let firmwareVersion ← strField P members "firmware_version" 50
    some {
      time := time
      temperatureC := temperatureC
      humidityPct := humidityPct
      co2Ppm := co2Ppm
      phLevel := phLevel
      ambientTempC := ambientTempC
      fanSpeedRpm := fanSpeedRpm
      fillLevelPct := fillLevelPct
      weightKg := weightKg
      firmwareVersion := firmwareVersion }
  | _ => none

/-! ## The client -/

structure MqttMessage where
  topic : String
  payload : ByteArray

inductive EventLoop where
  | absent | stopped | running
  deriving DecidableEq

/-- The client, with the libraries that it calls. -/
structure MqttIngestionClient where
  interpreter : Interpreter
  pydantic : Pydantic
  loop : EventLoop

/-- What becomes of a message: one call of `process_telemetry_async` is scheduled, or the message
is dropped and the log says why. -/
inductive Delivery where
  | scheduled (deviceId : Uuid) (reading : SensorReadingIn)
  | invalidTopic (topic : String)
  | invalidPayload (deviceId : Uuid)
  | noEventLoop (deviceId : Uuid)
  deriving DecidableEq

namespace MqttIngestionClient

variable (M : MqttIngestionClient)

/-- `uuid.UUID(topic.split("/")[-1])` -/
def deviceOfTopic (topic : String) : Option Uuid :=
  parseUuid M.interpreter (String.ofList ((splitBy '/' topic.toList).getLast?.getD []))

/-- `SensorReadingIn(**json.loads(payload))` -/
def readingOfPayload (payload : String) : Option SensorReadingIn :=
  (jsonLoads M.interpreter payload).bind (SensorReadingIn.validate M.pydantic)

/-- `on_message` from its first `try` on. Each of the two blocks catches everything. -/
def deliver (topic payload : String) : Delivery :=
  match M.deviceOfTopic topic with
  | none => .invalidTopic topic
  | some deviceId =>
    match M.readingOfPayload payload with
    | none => .invalidPayload deviceId
    | some reading =>
      if M.loop = .running then .scheduled deviceId reading else .noEventLoop deviceId

/-- The bytes are decoded outside the `try` blocks. -/
def onMessage (msg : MqttMessage) : Except Exn Delivery :=
  (decodeUtf8 msg.payload).map (M.deliver msg.topic)

/-- The network thread: what becomes of the messages, up to the one that ends it. -/
def listen : List MqttMessage → List (Except Exn Delivery)
  | [] => []
  | msg :: msgs =>
    match M.onMessage msg with
    | .ok delivery => .ok delivery :: listen msgs
    | .error e => [.error e]

end MqttIngestionClient

end Rawbin
