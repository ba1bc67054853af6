import QuantumPlatform.Process.Along
import QuantumPlatform.Stream.FaustApp.Metrics

namespace QuantumPlatform.Stream

open Process WindowTable

variable {𝕂 : Type} [Field 𝕂] [LinearOrder 𝕂] [FloorRing 𝕂]

-- The error rates of one window of one backend, by the times of their messages.
def windowRates (backendName : String) (window : Int)
    (deliveries : List (CalibrationDelivery 𝕂)) : List 𝕂 :=
  (among (fun delivery => delivery.event.backendName)
    (fun delivery => tumbling delivery.timestamp) backendName window deliveries).map
      fun delivery => delivery.event.errorRate

-- A processed event, with the error rates of its window so far, its own included.
structure Processed (𝕂 : Type) where
  delivery : CalibrationDelivery 𝕂
  output : CalibrationOutput 𝕂
  samples : List 𝕂

namespace Processed

variable (processed : Processed 𝕂)

def backendName : String := processed.delivery.event.backendName

def clears : Bool := processed.output.alert.any fun alert => alert.level = AlertLevel.OK.value

end Processed

-- The processed events so far, in order.
def processedEvents (history : List (CalibrationDelivery 𝕂 × CalibrationOutput 𝕂)) :
    List (Processed 𝕂) :=
  history.foldl (fun processed entry =>
    processed ++ [{
      delivery := entry.1,
      output := entry.2,
      samples := windowRates entry.1.event.backendName (tumbling entry.1.timestamp)
        (processed.map Processed.delivery ++ [entry.1]) }]) []

def ofBackend (backendName : String) (events : List (Processed 𝕂)) : List (Processed 𝕂) :=
  events.filter fun processed => decide (processed.backendName = backendName)

-- The total of the window that the wall clock is in at the first read, over the number of
-- samples of the window that it is in at the second.
def wallClockMean (seen : List (CalibrationDelivery 𝕂)) (delivery : CalibrationDelivery 𝕂) : 𝕂 :=
  let rates := fun time : 𝕂 =>
    windowRates delivery.event.backendName (tumbling time) (seen ++ [delivery])
  let count := (rates delivery.countReadAt).length
  if count = 0 then 0 else (rates delivery.totalReadAt).sum / count

-- The same messages at the same times, with error rates of their own.
structure CalibrationDelivery.SameTiming (first second : CalibrationDelivery 𝕂) : Prop where
  backendName : second.event.backendName = first.event.backendName
  timestamp : second.timestamp = first.timestamp
  totalReadAt : second.totalReadAt = first.totalReadAt
  countReadAt : second.countReadAt = first.countReadAt

-- The total is read in the event's own window, and the count in one that holds as many samples.
structure ReadsOwnWindow (seen : List (CalibrationDelivery 𝕂)) (delivery : CalibrationDelivery 𝕂) :
    Prop where
  total : tumbling delivery.totalReadAt = tumbling delivery.timestamp
  count : (windowRates delivery.event.backendName (tumbling delivery.countReadAt)
      (seen ++ [delivery])).length =
    (windowRates delivery.event.backendName (tumbling delivery.timestamp)
      (seen ++ [delivery])).length

end QuantumPlatform.Stream
