import Adas.Ecu.Release
import Adas.Ecu.Alert
import Adas.Ecu.Fusion
import Adas.Ecu.Liveness
import Adas.Ecu.Warning
import Adas.Ecu.Sample
import Adas.Esp.Bridge
import Adas.Esp.Pulse
import Adas.Esp.Encoder
import Adas.Esp.Joystick
import Adas.Esp.Direction
import Adas.Esp.Substring
import Adas.Esp.ReadBuffer
import Adas.Link.Framing
import Adas.Link.Grouping
import Adas.Link.System
import Adas.Link.Pins
import Adas.Link.Speed
import Adas.Ecu.Dropout
import Adas.Ecu.Flags
import Adas.Link.Ultrasonic
import Adas.Esp.Alarms
import Adas.Link.Buzzer
import Adas.Esp.Command
import Adas.Ecu.Odometer
import Adas.Esp.Connection
import Adas.Link.Whole
import Adas.Esp.Lockout
import Adas.Ecu.Progress
