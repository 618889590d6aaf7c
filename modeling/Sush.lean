import Sush.Verify.Starter
import Sush.Verify.Lives
import Sush.Verify.Attach
import Sush.Verify.Restart
import Sush.Verify.Agreement
import Sush.Verify.PairRules
import Sush.Verify.Codec
import Sush.Verify.Relays
import Sush.Verify.Universes
import Sush.Verify.Stops
import Sush.Verify.Endings
import Sush.Verify.Preimages
import Sush.Verify.RoundTrip
import Sush.Verify.Gossip
import Sush.Verify.Targeting
import Sush.Verify.FrontDoor
import Sush.Verify.Draining
import Sush.Verify.Listing
import Sush.Verify.Phrases
import Sush.Verify.Canonical
import Sush.Verify.Anchors
import Sush.Verify.Download
import Sush.Verify.SkSignatures
import Sush.Verify.Streaming
import Sush.Verify.Links
import Sush.Verify.Bases
import Sush.Verify.Routing
import Sush.Verify.Clients
import Sush.Verify.Sled
import Sush.Verify.Serve
import Sush.Verify.Signer
import Sush.Verify.ClientSession
