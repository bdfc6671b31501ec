import LifecycleTelemetry.Config.Store
import LifecycleTelemetry.Delivery.Client
import LifecycleTelemetry.Reporter.Ambient

/-!
# Reporters

A reporter knows what all events have in common, whether it may report at all, and by which client
events are delivered. It is made once per process; a permission that changes later takes effect on the
next one.

The reporter of a metrics file makes whatever the file lacks, so that the file knows the device and
the permission afterwards. Whether the program is used for the first time is told by the permission
that the file held before.
-/

namespace LifecycleTelemetry

open Json (Fields)

/-- Who reports. -/
structure Reporter where
  ambient : Ambient
  enabled : Bool
  client : DeliveryClient
deriving DecidableEq

namespace Reporter

/-- The properties that an event is sent with: its own, and those of the ambient that it does not
have. -/
def merged (r : Reporter) (properties : Fields) : Fields :=
  Fields.insertAll r.ambient.fields properties

/-- The reporter of a metrics file. -/
def ofStore (collector : Collector) (s : StoreState) : Reporter × StoreState :=
  let (record, s) := s.read
  let isFirstUsage := record.permission.isNone
  let (deviceId, record, s) := s.deviceId record
  let (permission, record, s) := s.permission record
  let enabled := permission.enabled && !reportingSwitchedOff s.host.environment
  let host := s.host.say .debug .reporter "telemetry reporter initialised"
    [("enabled", .bool enabled), ("is_first_usage", .bool isFirstUsage)]
  let (sessionId, host) := host.draw
  let reporter : Reporter :=
    { ambient :=
        { sessionId
          platform := host.platform
          arch := host.arch
          version := programVersion
          isFirstUsage }
      enabled
      client := DeliveryClient.ofCollector collector deviceId record.userId }
  (reporter, { s with host })

end Reporter
end LifecycleTelemetry
